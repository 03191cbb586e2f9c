import Norr.Control.Initiations

/-! In which order the provisional sessions of a peer become its current session.

`Watched` adds to a node what the code does not keep: the timestamp of the initiation behind each
provisional entry, and the promotions so far. -/

namespace Norr

structure Promotion where
  peer : PeerId
  timestamp : UInt64
  deriving DecidableEq

structure Watched where
  node : Node
  stamps : AList (fun _ : UInt16 => UInt64) := ∅
  promotions : List Promotion := []

namespace Watched

open Node

variable (crypto : Crypto) (heap : HeapAlgorithms)

/-- The key id of the provisional entry a call has created. -/
def created (before after : Node) : Option UInt16 :=
  after.plane.provisional.keys.find? (· ∉ before.plane.provisional)

def stamped (watched : Watched) : Call → AList (fun _ : UInt16 => UInt64)
  | .handleDatagram source datagram draws now =>
    match created watched.node (watched.node.call crypto heap (.handleDatagram source datagram draws now)),
      watched.node.authenticates crypto datagram with
    | some keyId, some (_, timestamp) => watched.stamps.insert keyId timestamp
    | _, _ => watched.stamps
  | _ => watched.stamps

def promoted (watched : Watched) : Call → Option Promotion
  | .tryPromoteProvisional view datagram room source clock =>
    if (watched.node.tryPromoteProvisional crypto heap view datagram room source clock).1.isOk then
      match watched.node.plane.provisional.lookup view.header.keyId,
        watched.stamps.lookup view.header.keyId with
      | some entry, some timestamp => some ⟨entry.peer, timestamp⟩
      | _, _ => none
    else none
  | _ => none

def call (watched : Watched) (action : Call) : Watched where
  node := watched.node.call crypto heap action
  stamps := watched.stamped crypto heap action
  promotions := watched.promotions ++ (watched.promoted crypto heap action).toList

def run (watched : Watched) (calls : List Call) : Watched := calls.foldl (call crypto heap) watched

/-- No promotion of the peer leaves an entry of an older initiation of it behind. -/
def Orderly (watched : Watched) (peer : PeerId) (action : Call) : Prop :=
  ∀ promotion ∈ watched.promoted crypto heap action, promotion.peer = peer →
    ∀ entry ∈ watched.node.plane.provisional.entries, entry.2.peer = peer →
      ∀ timestamp ∈ watched.stamps.lookup entry.1, promotion.timestamp ≤ timestamp

instance (watched : Watched) (peer : PeerId) (action : Call) :
    Decidable (watched.Orderly crypto heap peer action) :=
  decidable_of_iff ((watched.promoted crypto heap action).all (fun promotion =>
      !decide (promotion.peer = peer) || watched.node.plane.provisional.entries.all fun entry =>
        !decide (entry.2.peer = peer) || (watched.stamps.lookup entry.1).all (promotion.timestamp ≤ ·)) = true) (by
    simp only [Orderly, Option.all_eq_true, List.all_eq_true, Bool.or_eq_true, Bool.not_eq_true',
      decide_eq_false_iff_not, decide_eq_true_eq, ← imp_iff_not_or, Option.mem_def])

def OrderlyRun (peer : PeerId) (watched : Watched) : List Call → Prop
  | [] => True
  | action :: rest => action ≠ .forgetPeer peer ∧ watched.Orderly crypto heap peer action ∧
      OrderlyRun peer (watched.call crypto heap action) rest

/-- The peer a call forgets. -/
def forgotten : Call → Option PeerId
  | .forgetPeer peer => some peer
  | _ => none

instance (peer : PeerId) (action : Call) : Decidable (action = .forgetPeer peer) :=
  decidable_of_iff (forgotten action = some peer) (by cases action <;> simp [forgotten])

instance decidableOrderlyRun (peer : PeerId) (watched : Watched) :
    (calls : List Call) → Decidable (OrderlyRun crypto heap peer watched calls)
  | [] => inferInstanceAs (Decidable True)
  | action :: rest =>
    have := decidableOrderlyRun peer (watched.call crypto heap action) rest
    inferInstanceAs (Decidable (action ≠ .forgetPeer peer ∧ watched.Orderly crypto heap peer action ∧
      OrderlyRun crypto heap peer (watched.call crypto heap action) rest))

variable {crypto : Crypto} {heap : HeapAlgorithms}

/-- Every entry of the peer has its timestamp, later than all promotions of it so far. -/
structure Ordered (peer : PeerId) (watched : Watched) : Prop where
  held : ∀ keyId entry, watched.node.plane.provisional.lookup keyId = some entry → entry.peer = peer →
    ∃ timestamp, watched.stamps.lookup keyId = some timestamp ∧ watched.node.Reached peer timestamp ∧
      ∀ promotion ∈ watched.promotions, promotion.peer = peer → promotion.timestamp < timestamp
  single : ∀ first second entry other timestamp,
    watched.node.plane.provisional.lookup first = some entry → entry.peer = peer →
    watched.node.plane.provisional.lookup second = some other → other.peer = peer →
    watched.stamps.lookup first = some timestamp → watched.stamps.lookup second = some timestamp →
      first = second
  reached : ∀ promotion ∈ watched.promotions, promotion.peer = peer →
    watched.node.Reached peer promotion.timestamp
  increasing : (watched.promotions.filter (·.peer = peer)).Pairwise (·.timestamp < ·.timestamp)

theorem ordered_create (localStatic : KeyPair) (peer : PeerId) :
    Ordered peer { node := Node.create crypto localStatic } where
  held := fun _ _ found => by cases found
  single := fun _ _ _ _ _ found => by cases found
  reached := fun _ member => by cases member
  increasing := .nil

variable {watched : Watched} {peer : PeerId} {after : Node} {datagram : Bytes} {view : PacketView} {room : ℕ}
  {source : Endpoint} {clock : Instant} {action : Call}

/-- A call that only releases entries keeps the order. -/
theorem Ordered.releases (ordered : Ordered peer watched) (released : Releases watched.node after)
    (keeps : ∀ timestamp, watched.node.Reached peer timestamp → after.Reached peer timestamp) :
    Ordered peer { watched with node := after } where
  held := by
    intro keyId entry found own
    obtain ⟨timestamp, stamp, reached, later⟩ := ordered.held keyId entry (released keyId entry found) own
    exact ⟨timestamp, stamp, keeps timestamp reached, later⟩
  single := fun first second entry other timestamp foundFirst ownFirst foundSecond ownSecond =>
    ordered.single first second entry other timestamp (released _ _ foundFirst) ownFirst
      (released _ _ foundSecond) ownSecond
  reached := fun promotion member own => keeps _ (ordered.reached promotion member own)
  increasing := ordered.increasing

theorem created_none {before : Node} (released : Releases before after) :
    created before after = none := by
  rw [created, List.find?_eq_none]
  intro keyId member
  obtain ⟨entry, found⟩ := (AList.mem_iff_lookup _ _).mp (AList.mem_keys.mpr member)
  simpa using (AList.mem_iff_lookup _ _).mpr ⟨entry, released keyId entry found⟩

theorem created_some {before : Node} {entry : Provisional} (fresh : entry.localKeyId ∉ before.plane.provisional)
    (held : after.plane.provisional = before.plane.provisional.insert entry.localKeyId entry) :
    created before after = some entry.localKeyId := by
  rw [created, held, AList.keys_insert, List.find?_cons_of_pos]
  simpa using fresh

/-- An answered initiation of the peer is newer than all it has had. -/
theorem Ordered.answered (ordered : Ordered peer watched) {source : PeerId} {timestamp : UInt64}
    (answered : Answered crypto watched.node after datagram source timestamp) {entry : Provisional}
    (owner : entry.peer = source) (fresh : entry.localKeyId ∉ watched.node.plane.provisional)
    (held : after.plane.provisional = watched.node.plane.provisional.insert entry.localKeyId entry)
    (keeps : ∀ timestamp, watched.node.Reached peer timestamp → after.Reached peer timestamp) :
    Ordered peer { watched with
      node := after
      stamps := watched.stamps.insert entry.localKeyId timestamp } := by
  -- what the entry under a key id is now, and its timestamp
  have cases {keyId : UInt16} {value : Provisional} (found : after.plane.provisional.lookup keyId = some value) :
      keyId = entry.localKeyId ∧ value = entry ∧
          (watched.stamps.insert entry.localKeyId timestamp).lookup keyId = some timestamp ∨
        watched.node.plane.provisional.lookup keyId = some value ∧
          (watched.stamps.insert entry.localKeyId timestamp).lookup keyId = watched.stamps.lookup keyId := by
    rw [held, AList.lookup_insert_eq] at found
    rw [AList.lookup_insert_eq]
    split_ifs at found with same
    · cases found
      exact .inl ⟨same, rfl, if_pos same⟩
    · exact .inr ⟨found, if_neg same⟩
  have newer {old : UInt64} (reached : watched.node.Reached peer old) (own : entry.peer = peer) :
      old < timestamp := by
    have stale := answered.newer
    rw [← owner, own] at stale
    exact reached.newer stale
  -- an entry of the peer from before cannot have the new timestamp
  have older {keyId : UInt16} {value : Provisional}
      (found : watched.node.plane.provisional.lookup keyId = some value) (own : value.peer = peer)
      (stamp : watched.stamps.lookup keyId = some timestamp) (mine : entry.peer = peer) : False := by
    obtain ⟨known, stamped, reached, -⟩ := ordered.held keyId value found own
    rw [stamp, Option.some_inj] at stamped
    subst stamped
    exact UInt64.lt_irrefl _ (newer reached mine)
  refine ⟨?_, ?_, fun promotion member own => keeps _ (ordered.reached promotion member own),
    ordered.increasing⟩
  · intro keyId value found own
    rcases cases found with ⟨rfl, rfl, stamp⟩ | ⟨old, stamp⟩
    · refine ⟨timestamp, stamp, ⟨timestamp, ?_, UInt64.le_refl _⟩, fun promotion member mine => ?_⟩
      · rw [← own, owner]
        exact answered.stamped
      · exact newer (ordered.reached promotion member mine) own
    · obtain ⟨known, stamped, reached, later⟩ := ordered.held keyId value old own
      exact ⟨known, stamp.trans stamped, keeps known reached, later⟩
  · intro first second value other known foundFirst ownFirst foundSecond ownSecond stampFirst stampSecond
    rcases cases foundFirst with ⟨rfl, rfl, isFirst⟩ | ⟨oldFirst, sameFirst⟩
    · rw [stampFirst, Option.some_inj] at isFirst
      subst isFirst
      rcases cases foundSecond with ⟨rfl, -, -⟩ | ⟨oldSecond, sameSecond⟩
      · rfl
      · exact (older oldSecond ownSecond (sameSecond ▸ stampSecond) ownFirst).elim
    · rcases cases foundSecond with ⟨rfl, rfl, isSecond⟩ | ⟨oldSecond, sameSecond⟩
      · rw [stampSecond, Option.some_inj] at isSecond
        subst isSecond
        exact (older oldFirst ownFirst (sameFirst ▸ stampFirst) ownSecond).elim
      · exact ordered.single first second value other known oldFirst ownFirst oldSecond ownSecond
          (sameFirst ▸ stampFirst) (sameSecond ▸ stampSecond)

theorem tryPromoteProvisional_erased {node : Node} {packet plaintext : Bytes}
    (ran : node.tryPromoteProvisional crypto heap view packet room source clock = (.ok plaintext, after)) :
    after.plane.provisional = node.plane.provisional.erase view.header.keyId := by
  rcases tryPromoteProvisional_cases ran with ⟨⟨_, failed⟩, -⟩ | ⟨entry, -, -, ref, table, -, -, -, -, rfl⟩
  · cases failed
  · exact (promoted_frame heap node _ entry.peer ref table source clock).2.1

theorem call_releases (node : Node) (silent : ¬ action.Answers) : Releases node (node.call crypto heap action) := by
  by_cases stepwise : action.Stepwise
  · have steps : Steps heap action.time action.Answers node (node.call crypto heap action) :=
      call_steps node stepwise
    rw [eq_false silent] at steps
    exact steps.releases
  · cases action with
    | addPeer config =>
      simp only [Node.call, Node.addPeer]
      split_ifs <;> exact fun _ _ found => found
    | forgetPeer peer =>
      intro keyId entry found
      rw [Node.call, forgetPeer_frame] at found
      exact (AList.lookup_keep.mp found).1
    | expireTimers now => exact fun _ _ found => found
    | _ => exact (stepwise trivial).elim

theorem call_quiet (stamps : watched.stamped crypto heap action = watched.stamps)
    (promoted : watched.promoted crypto heap action = none) :
    watched.call crypto heap action = { watched with node := watched.node.call crypto heap action } := by
  rw [call, stamps, promoted, Option.toList_none, List.append_nil]

theorem promoted_spec {promotion : Promotion}
    (promoted : watched.promoted crypto heap (.tryPromoteProvisional view datagram room source clock) =
      some promotion) :
    (∃ entry, watched.node.plane.provisional.lookup view.header.keyId = some entry ∧
        entry.peer = promotion.peer) ∧
      watched.stamps.lookup view.header.keyId = some promotion.timestamp ∧
      (watched.node.call crypto heap (.tryPromoteProvisional view datagram room source clock)).plane.provisional =
        watched.node.plane.provisional.erase view.header.keyId := by
  simp only [Watched.promoted] at promoted
  split_ifs at promoted with succeeds
  split at promoted
  · rename_i entry timestamp found stamp
    cases promoted
    refine ⟨⟨entry, found, rfl⟩, stamp, ?_⟩
    rcases ran : watched.node.tryPromoteProvisional crypto heap view datagram room source clock with
      ⟨error | plaintext, after⟩
    · rw [ran] at succeeds
      cases succeeds
    · rw [Node.call, ran]
      exact tryPromoteProvisional_erased ran
  · cases promoted

theorem Ordered.promotes (ordered : Ordered peer watched)
    (orderly : watched.Orderly crypto heap peer (.tryPromoteProvisional view datagram room source clock)) :
    Ordered peer (watched.call crypto heap (.tryPromoteProvisional view datagram room source clock)) := by
  have keeps (timestamp : UInt64) (reached : watched.node.Reached peer timestamp) :
      (watched.node.call crypto heap (.tryPromoteProvisional view datagram room source clock)).Reached peer
        timestamp := (reached_preserved heap peer timestamp).call _ Call.noConfusion reached
  have released : Releases watched.node
      (watched.node.call crypto heap (.tryPromoteProvisional view datagram room source clock)) :=
    call_releases watched.node id
  have remaining := ordered.releases released keeps
  cases promoted : watched.promoted crypto heap (.tryPromoteProvisional view datagram room source clock) with
  | none =>
    rw [call_quiet rfl promoted]
    exact remaining
  | some promotion =>
    obtain ⟨⟨entry, found, owner⟩, stamp, erased⟩ := promoted_spec promoted
    have extended : watched.call crypto heap (.tryPromoteProvisional view datagram room source clock) =
        { node := watched.node.call crypto heap (.tryPromoteProvisional view datagram room source clock)
          stamps := watched.stamps
          promotions := watched.promotions ++ [promotion] } := by
      rw [call, promoted]
      rfl
    rw [extended]
    refine ⟨?_, remaining.single, ?_, ?_⟩
    · intro keyId value there own
      obtain ⟨timestamp, stamped, reached, later⟩ := remaining.held keyId value there own
      refine ⟨timestamp, stamped, reached, fun earlier member mine => ?_⟩
      rcases List.mem_append.mp member with old | new
      · exact later earlier old mine
      · rw [List.mem_singleton.mp new] at mine ⊢
        -- the entry that stays is no older, and it is another one
        have noOlder := orderly promotion promoted mine ⟨keyId, value⟩
          ((AList.mem_entries_iff _ _ _).mpr (released keyId value there)) own timestamp stamped
        refine UInt64.lt_of_le_of_ne noOlder fun same => ?_
        have here := ordered.single keyId view.header.keyId value entry timestamp
          (released keyId value there) own found (owner.trans mine) stamped (same ▸ stamp)
        rw [erased, here, AList.lookup_erase] at there
        cases there
    · intro earlier member mine
      rcases List.mem_append.mp member with old | new
      · exact remaining.reached earlier old mine
      · rw [List.mem_singleton.mp new] at mine ⊢
        obtain ⟨timestamp, stamped, reached, -⟩ :=
          ordered.held view.header.keyId entry found (owner.trans mine)
        rw [stamp, Option.some_inj] at stamped
        exact keeps _ (stamped ▸ reached)
    · rw [List.filter_append, List.pairwise_append]
      refine ⟨ordered.increasing, (List.pairwise_singleton _ promotion).filter _, ?_⟩
      intro earlier inEarlier later inLater
      rw [List.mem_filter, decide_eq_true_eq] at inEarlier inLater
      obtain rfl := List.mem_singleton.mp inLater.1
      obtain ⟨timestamp, stamped, -, after⟩ :=
        ordered.held view.header.keyId entry found (owner.trans inLater.2)
      rw [stamp, Option.some_inj] at stamped
      exact stamped ▸ after earlier inEarlier.1 inEarlier.2

theorem Ordered.call (ordered : Ordered peer watched) (kept : action ≠ .forgetPeer peer)
    (orderly : watched.Orderly crypto heap peer action) : Ordered peer (watched.call crypto heap action) := by
  have keeps (timestamp : UInt64) (reached : watched.node.Reached peer timestamp) :
      (watched.node.call crypto heap action).Reached peer timestamp :=
    (reached_preserved heap peer timestamp).call action kept reached
  cases action with
  | tryPromoteProvisional view datagram room source clock => exact ordered.promotes orderly
  | handleDatagram source datagram draws now =>
    rcases ran : watched.node.handleDatagram crypto heap source datagram draws now with ⟨outcome, after⟩
    have reaches : watched.node.call crypto heap (.handleDatagram source datagram draws now) = after := by
      rw [Node.call, ran]
    rcases handleDatagram_cases ran with ⟨released, -⟩ | ⟨owner, timestamp, answered⟩
    · rw [← reaches] at released
      rw [call_quiet (by simp only [stamped, created_none released]) rfl]
      exact ordered.releases released keeps
    · obtain ⟨entry, own, free, held⟩ := answered.held
      rw [← reaches] at answered held
      have grown := ordered.answered answered own free.provisional held keeps
      have stamps : watched.stamped crypto heap (.handleDatagram source datagram draws now) =
          watched.stamps.insert entry.localKeyId timestamp := by
        simp only [stamped, created_some free.provisional held, answered.authenticated]
      rw [Watched.call, stamps]
      simpa only [promoted, Option.toList_none, List.append_nil] using grown
  | _ =>
    rw [call_quiet rfl rfl]
    exact ordered.releases (call_releases watched.node id) keeps

theorem Ordered.run (calls : List Call) (ordered : Ordered peer watched)
    (orderly : OrderlyRun crypto heap peer watched calls) : Ordered peer (watched.run crypto heap calls) := by
  induction calls generalizing watched with
  | nil => exact ordered
  | cons action calls ih => exact ih (ordered.call orderly.1 orderly.2.1) orderly.2.2

/-- Where no promotion leaves an older entry of the peer behind, its sessions are promoted in the
order of their initiations. -/
theorem promotions_in_order (localStatic : KeyPair) (calls : List Call) (peer : PeerId)
    (orderly : OrderlyRun crypto heap peer { node := Node.create crypto localStatic } calls) :
    ((run crypto heap { node := Node.create crypto localStatic } calls).promotions.filter
      (·.peer = peer)).Pairwise (·.timestamp < ·.timestamp) :=
  ((ordered_create localStatic peer).run calls orderly).increasing

def samplePacket (keyId : UInt16) (counter : UInt64) : Bytes :=
  headerBytes { version := kProtocolVersion, type := .data, flags := 0, keyId, counter, payloadLength := 16 }
    16 ++ List.replicate 16 0

/-- The first data packet on a session of node 2. -/
def firstPacket (keyId : UInt16) : List Call :=
  match parsePacket (samplePacket keyId 0) with
  | .ok view => [.tryPromoteProvisional view (samplePacket keyId 0) 64 {} 0]
  | .error _ => []

def twoAnswers : List Call :=
  [.addPeer callerPeer, .handleDatagram {} (sampleInitiation 1) plainDraws 0,
    .handleDatagram {} (sampleInitiation 2) plainDraws 0]

def newcomer : Watched := { node := Node.create Crypto.plain (Crypto.plainPair 2) }

theorem promotions_in_order_twoAnswers :
    (newcomer.run Crypto.plain sortingHeap (twoAnswers ++ (firstPacket 1 ++ firstPacket 2))).promotions =
        [⟨9, 1⟩, ⟨9, 2⟩] ∧
      ((newcomer.run Crypto.plain sortingHeap (twoAnswers ++ (firstPacket 1 ++ firstPacket 2))).promotions.filter
        (·.peer = 9)).Pairwise (·.timestamp < ·.timestamp) := by
  refine ⟨by decide +kernel, promotions_in_order (Crypto.plainPair 2) _ 9 ?_⟩
  decide +kernel

/-- The packet of the later session arrives first; then the older session takes its place. -/
theorem older_session_becomes_current :
    (newcomer.run Crypto.plain sortingHeap (twoAnswers ++ (firstPacket 2 ++ firstPacket 1))).promotions =
        [⟨9, 2⟩, ⟨9, 1⟩] ∧
      (((newcomer.run Crypto.plain sortingHeap
        (twoAnswers ++ (firstPacket 2 ++ firstPacket 1))).node.table.findByPeer 9).bind
          (newcomer.run Crypto.plain sortingHeap
            (twoAnswers ++ (firstPacket 2 ++ firstPacket 1))).node.table.get).map Session.localKeyId =
        some 1 := by
  decide +kernel

end Watched

end Norr
