import Norr.Control.Runs
import Norr.Crypto.Transcript
import Norr.Lib.Lists

/-! Which initiations a node answers: their timestamps grow, so that none is answered twice. -/

namespace Norr

structure Answer where
  peer : PeerId
  timestamp : UInt64
  datagram : Bytes
  deriving DecidableEq

/-- handle_datagram has returned a response, not a cookie or a retry. -/
def isResponse (outcome : Except ControlError (Option OutgoingHandshake)) : Bool :=
  match outcome with
  | .ok (some reply) => reply.datagram.head? = some HandshakeMessage.response.code
  | _ => false

namespace Node

variable (crypto : Crypto) (heap : HeapAlgorithms)

/-- The peer an initiation comes from and its timestamp, as handle_datagram reads them. -/
def authenticates (node : Node) (datagram : Bytes) : Option (PeerId × UInt64) :=
  match parseHandshakeFrame datagram with
  | .error _ => none
  | .ok frame =>
    match node.identify crypto frame.noiseMessage with
    | .error _ => none
    | .ok (peer, config) =>
      match node.readInitiation crypto config.preshared frame.noiseMessage with
      | none => none
      | some (payload, _) => some (peer, payloadTimestamp payload)

def answered (node : Node) : Call → Option Answer
  | .handleDatagram source datagram draws now =>
    if isResponse (node.handleDatagram crypto heap source datagram draws now).1 then
      (node.authenticates crypto datagram).map fun (peer, timestamp) => ⟨peer, timestamp, datagram⟩
    else none
  | _ => none

/-- The initiations answered in the course of a run. -/
def answers (node : Node) : List Call → List Answer
  | [] => []
  | action :: rest => (node.answered crypto heap action).toList ++ (node.call crypto heap action).answers rest

/-- Provisional entries may have gone, but none has come. -/
def Releases (before after : Node) : Prop :=
  ∀ keyId entry, after.plane.provisional.lookup keyId = some entry →
    before.plane.provisional.lookup keyId = some entry

/-- An initiation newer than all before has been stamped, and answered with a provisional entry. -/
structure Answered (node after : Node) (datagram : Bytes) (peer : PeerId) (timestamp : UInt64) : Prop where
  authenticated : node.authenticates crypto datagram = some (peer, timestamp)
  newer : (node.plane.greatestTimestamp.lookup peer).any (timestamp ≤ ·) = false
  stamped : after.plane.greatestTimestamp.lookup peer = some timestamp
  held : ∃ entry : Provisional, entry.peer = peer ∧ node.Free entry.localKeyId ∧
    after.plane.provisional = node.plane.provisional.insert entry.localKeyId entry

variable {crypto : Crypto} {heap : HeapAlgorithms} {now : Instant}
variable {after node : Node} {outcome : Except ControlError (Option OutgoingHandshake)} {peer : PeerId}
  {source : Endpoint} {draws : Draws} {datagram : Bytes} {timestamp : UInt64} {answer : Answer} {calls : List Call}

theorem Step.releases {before : Node} (step : Step heap now False before after) :
    Releases before after := by
  cases step with
  | stamp _ _ answers => exact answers.elim
  | hold _ answers => exact answers.elim
  | release | promote => exact fun _ _ found => (AList.of_lookup_erase found).2
  | _ => exact fun _ _ found => found

theorem Steps.releases {before : Node} (steps : Steps heap now False before after) :
    Releases before after := by
  induction steps with
  | refl => exact fun _ _ found => found
  | tail _ step ih => exact fun keyId entry found => ih keyId entry (step.releases keyId entry found)

/-- A call that sends frames of another kind does not respond. -/
theorem Ran.not_response {answering : Prop} {sends : Bytes → Prop}
    (ran : Ran heap now answering sends node (outgoingOf outcome) after)
    (other : ∀ bytes, sends bytes → bytes.head? ≠ some HandshakeMessage.response.code) :
    isResponse outcome = false := by
  match outcome with
  | .error _ => rfl
  | .ok none => rfl
  | .ok (some reply) => exact decide_eq_false (other _ (ran.frames reply List.mem_cons_self))

theorem frames_not_response {message : HandshakeMessage} (other : message ≠ .response) (bytes : Bytes)
    (framed : message.Frames bytes) : bytes.head? ≠ some HandshakeMessage.response.code := by
  rw [framed.head, ne_eq, Option.some_inj]
  revert other
  cases message <;> decide

theorem Responds.answered {frame : HandshakeFrameView} (parsed : parseHandshakeFrame datagram = .ok frame)
    (responds : Responds crypto heap frame now node outcome after) :
    after.plane.provisional = node.plane.provisional ∧ isResponse outcome = false ∨
      ∃ peer timestamp, Answered crypto node after datagram peer timestamp := by
  cases responds with
  | held payload table entry _ vouched _ free =>
    obtain ⟨⟨config, handshake, identified, read⟩, newer⟩ := vouched
    refine .inr ⟨entry.peer, payloadTimestamp payload, ?_, newer, AList.lookup_insert _, entry, rfl, free, rfl⟩
    simp only [authenticates, parsed, identified, read]
  | _ => exact .inl ⟨rfl, rfl⟩

theorem handleDatagram_cases (ran : node.handleDatagram crypto heap source datagram draws now = (outcome, after)) :
    Releases node after ∧ isResponse outcome = false ∨
      ∃ peer timestamp, Answered crypto node after datagram peer timestamp := by
  have unchanged {node : Node} : Releases node node := fun _ _ found => found
  cases handleDatagram_handles ran with
  | refused error failed same =>
    rw [failed, same]
    exact .inl ⟨unchanged, rfl⟩
  | cookie frame reply parsed kind read accepted =>
    have tried : Ran heap now False _ node _ after := acceptCookie_ran accepted
    exact .inl ⟨tried.steps.releases, tried.not_response (frames_not_response (by decide))⟩
  | challenged frame parsed kind challenged =>
    obtain ⟨⟨issuer, rfl⟩, refused⟩ := challenge_ran heap challenged
    exact .inl ⟨unchanged, refused.not_response (frames_not_response (by decide))⟩
  | initiation frame passed parsed challenged responds =>
    obtain ⟨⟨issuer, rfl⟩, -⟩ := challenge_ran heap challenged
    rcases responds.answered parsed with ⟨same, failed⟩ | ⟨peer, timestamp, answered⟩
    · exact .inl ⟨fun keyId entry found => same ▸ found, failed⟩
    · obtain ⟨entry, owner, free, held⟩ := answered.held
      exact .inr ⟨peer, timestamp, answered.authenticated, answered.newer, answered.stamped, entry, owner,
        { free with }, held⟩
  | response frame parsed kind accepted =>
    have tried : Ran heap now False _ node _ after := acceptResponse_ran (visits_all node) accepted
    exact .inl ⟨tried.steps.releases, tried.not_response nofun⟩

/-- What an initiation says of itself: the static key of its sender and its timestamp. -/
def claimed (crypto : Crypto) (localStatic : KeyPair) (datagram : Bytes) : Option (PublicKey × UInt64) :=
  match parseHandshakeFrame datagram with
  | .error _ => none
  | .ok frame =>
    match (create crypto localStatic).readInitiation crypto (Octets.zero 32) frame.noiseMessage with
    | none => none
    | some (payload, handshake) => some (handshake.remoteStatic, payloadTimestamp payload)

theorem readInitiation_rekeyed {first : PresharedKey} {message payload : Bytes} {handshake : NoiseHandshake}
    (second : PresharedKey) (read : node.readInitiation crypto first message = some (payload, handshake)) :
    node.readInitiation crypto second message = some (payload, { handshake with preshared := second }) := by
  simp only [readInitiation, NoiseHandshake.create] at read ⊢
  split at read
  · cases read
  · rename_i ran
    cases read
    rw [NoiseHandshake.readMessage1_rekeyed second ran]

/-- A peer is recognised by the key it claims, and the timestamp is the claimed one. -/
theorem authenticates_claimed (authenticated : node.authenticates crypto datagram = some (peer, timestamp)) :
    ∃ config, node.plane.peers.lookup peer = some config ∧
      claimed crypto node.plane.localStatic datagram = some (config.staticPublic, timestamp) := by
  unfold authenticates at authenticated
  split at authenticated
  · cases authenticated
  · rename_i frame parsed
    split at authenticated
    · cases authenticated
    · rename_i config identified
      split at authenticated
      · cases authenticated
      · rename_i payload handshake read
        cases authenticated
        refine ⟨config, identify_known identified, ?_⟩
        have probed := readInitiation_rekeyed (Octets.zero 32) read
        have matched : config.staticPublic = handshake.remoteStatic := by
          unfold identify at identified
          rw [probed] at identified
          dsimp only at identified
          split at identified
          · cases identified
          · rename_i found
            cases identified
            exact of_decide_eq_true (List.find?_eq_some_iff_append.mp found).1
        have same : (create crypto node.plane.localStatic).readInitiation crypto (Octets.zero 32)
            frame.noiseMessage = node.readInitiation crypto (Octets.zero 32) frame.noiseMessage := rfl
        simp only [claimed, parsed, same, probed, matched]

/-- Some initiation of the peer at least as late as `timestamp` has been accepted. -/
def Reached (peer : PeerId) (timestamp : UInt64) (node : Node) : Prop :=
  ∃ greatest, node.plane.greatestTimestamp.lookup peer = some greatest ∧ timestamp ≤ greatest

theorem Reached.newer {later : UInt64} (reached : node.Reached peer timestamp)
    (newer : (node.plane.greatestTimestamp.lookup peer).any (later ≤ ·) = false) : timestamp < later := by
  obtain ⟨greatest, found, below⟩ := reached
  rw [found, Option.any_some, decide_eq_false_iff_not] at newer
  exact UInt64.lt_of_le_of_lt below (UInt64.not_le.mp newer)

/-- Timestamps are only ever replaced by greater ones, unless the peer is forgotten. -/
theorem reached_preserved (heap : HeapAlgorithms) (peer : PeerId) (timestamp : UInt64) :
    Preserves heap (· ≠ .forgetPeer peer) (Reached peer timestamp) where
  step := by
    intro now answering before after step reached
    cases step with
    | stamp other later answers known newer =>
      by_cases same : peer = other
      · subst same
        exact ⟨later, AList.lookup_insert _, UInt64.le_of_lt (reached.newer newer)⟩
      · obtain ⟨greatest, found, below⟩ := reached
        refine ⟨greatest, ?_, below⟩
        rw [AList.lookup_insert_ne same]
        exact found
    | _ => exact reached
  add := by
    intro node config _ reached
    unfold Node.addPeer
    split_ifs
    · exact reached
    · exact reached
  forget := by
    intro node other differs reached
    obtain ⟨greatest, found, below⟩ := reached
    refine ⟨greatest, ?_, below⟩
    rw [forgetPeer_frame, ← found]
    exact AList.lookup_erase_ne fun same => differs (congrArg Call.forgetPeer same.symm)
  expire := fun _ _ reached => reached

theorem localStatic_preserved (heap : HeapAlgorithms) (localStatic : KeyPair) :
    Preserves heap (fun _ => True) (fun node => node.plane.localStatic = localStatic) where
  step := by
    intro now answering before after step same
    cases step <;> exact same
  add := by
    intro node config _ same
    unfold Node.addPeer
    split_ifs <;> exact same
  forget := by
    intro node peer _ same
    rw [forgetPeer_frame]
    exact same
  expire := fun _ _ same => same

theorem answered_spec {action : Call} (found : node.answered crypto heap action = some answer) :
    Answered crypto node (node.call crypto heap action) answer.datagram answer.peer answer.timestamp := by
  cases action with
  | handleDatagram source datagram draws now =>
    simp only [answered] at found
    split_ifs at found with responds
    rcases ran : node.handleDatagram crypto heap source datagram draws now with ⟨outcome, after⟩
    rw [ran] at responds
    rcases handleDatagram_cases ran with ⟨-, failed⟩ | ⟨peer, timestamp, answered⟩
    · rw [failed] at responds
      cases responds
    · rw [answered.authenticated, Option.map_some, Option.some_inj] at found
      subst found
      rw [call, ran]
      exact answered
  | _ => cases found

theorem mem_answers_cons {action : Call} (member : answer ∈ node.answers crypto heap (action :: calls)) :
    node.answered crypto heap action = some answer ∨
      answer ∈ (node.call crypto heap action).answers crypto heap calls := by
  rcases List.mem_append.mp member with now | later
  · exact .inl (Option.mem_toList.mp now)
  · exact .inr later

theorem answers_claimed (member : answer ∈ node.answers crypto heap calls) :
    ∃ key, claimed crypto node.plane.localStatic answer.datagram = some (key, answer.timestamp) := by
  induction calls generalizing node with
  | nil => cases member
  | cons action calls ih =>
    rcases mem_answers_cons member with found | later
    · obtain ⟨config, -, claims⟩ := authenticates_claimed (answered_spec found).authenticated
      exact ⟨config.staticPublic, claims⟩
    · have same : (node.call crypto heap action).plane.localStatic = node.plane.localStatic :=
        (localStatic_preserved heap node.plane.localStatic).call action trivial rfl
      rw [← same]
      exact ih later

/-- Every answer to the peer is newer than what the node had reached before. -/
theorem answers_newer (kept : ∀ action ∈ calls, action ≠ .forgetPeer peer) (reached : node.Reached peer timestamp)
    (member : answer ∈ node.answers crypto heap calls) (own : answer.peer = peer) :
    timestamp < answer.timestamp := by
  induction calls generalizing node with
  | nil => cases member
  | cons action calls ih =>
    obtain ⟨first, rest⟩ := List.forall_mem_cons.mp kept
    rcases mem_answers_cons member with found | later
    · have newer := (answered_spec found).newer
      rw [own] at newer
      exact reached.newer newer
    · exact ih rest ((reached_preserved heap peer timestamp).call action first reached) later

theorem answers_increase (node : Node) (calls : List Call) (kept : ∀ action ∈ calls, action ≠ .forgetPeer peer) :
    ((node.answers crypto heap calls).filter (·.peer = peer)).Pairwise (·.timestamp < ·.timestamp) := by
  induction calls generalizing node with
  | nil => exact .nil
  | cons action calls ih =>
    obtain ⟨first, rest⟩ := List.forall_mem_cons.mp kept
    rw [answers, List.filter_append, List.pairwise_append]
    refine ⟨?_, ih _ rest, ?_⟩
    · cases node.answered crypto heap action with
      | none => exact .nil
      | some answer => exact (List.pairwise_singleton _ answer).filter _
    · intro earlier inEarlier later inLater
      rw [List.mem_filter, decide_eq_true_eq, Option.mem_toList] at inEarlier
      rw [List.mem_filter, decide_eq_true_eq] at inLater
      have answered := answered_spec inEarlier.1
      refine answers_newer rest ⟨earlier.timestamp, ?_, UInt64.le_refl _⟩ inLater.1 inLater.2
      rw [← inEarlier.2]
      exact answered.stamped

/-- Whoever is configured with the key has the id. -/
def Owns (key : PublicKey) (id : PeerId) (node : Node) : Prop :=
  ∀ other config, node.plane.peers.lookup other = some config → config.staticPublic = key → other = id

theorem owns_preserved (heap : HeapAlgorithms) (key : PublicKey) (id : PeerId) :
    Preserves heap (fun action => ∀ config, action = .addPeer config → config.staticPublic = key →
      config.id = id) (Owns key id) where
  step := by
    intro now answering before after step owns
    cases step <;> exact owns
  add := by
    intro node config legal owns
    unfold Node.addPeer
    split_ifs
    · exact owns
    · intro other value found same
      rw [AList.lookup_insert_eq] at found
      split_ifs at found with own
      · cases found
        exact own.trans (legal config rfl same)
      · exact owns other value found same
  forget := by
    intro node peer _ owns
    rw [forgetPeer_frame]
    intro other value found same
    exact owns other value (AList.of_lookup_erase found).2 same
  expire := fun _ _ owns => owns

theorem answers_owner {key : PublicKey} {id : PeerId} (owns : node.Owns key id)
    (added : ∀ action ∈ calls, ∀ config, action = .addPeer config → config.staticPublic = key → config.id = id)
    (member : answer ∈ node.answers crypto heap calls)
    (claims : claimed crypto node.plane.localStatic answer.datagram = some (key, timestamp)) : answer.peer = id := by
  induction calls generalizing node with
  | nil => cases member
  | cons action calls ih =>
    obtain ⟨first, rest⟩ := List.forall_mem_cons.mp added
    rcases mem_answers_cons member with found | later
    · obtain ⟨config, configured, own⟩ := authenticates_claimed (answered_spec found).authenticated
      rw [claims] at own
      cases own
      exact owns answer.peer config configured rfl
    · have same : (node.call crypto heap action).plane.localStatic = node.plane.localStatic :=
        (localStatic_preserved heap node.plane.localStatic).call action trivial rfl
      exact ih ((owns_preserved heap key id).call action first owns) rest later (same ▸ claims)

theorem answers_distinct (node : Node) (calls : List Call) (kept : ∀ action ∈ calls, action ≠ .forgetPeer peer) :
    ((node.answers crypto heap calls).filter (·.peer = peer)).Pairwise (fun earlier later =>
      earlier.timestamp < later.timestamp ∧ earlier.datagram ≠ later.datagram) := by
  refine (answers_increase node calls kept).imp_of_mem fun {earlier later} inEarlier inLater less => ?_
  refine ⟨less, fun same => ?_⟩
  obtain ⟨first, claims⟩ := answers_claimed (List.mem_of_mem_filter inEarlier)
  obtain ⟨second, repeated⟩ := answers_claimed (List.mem_of_mem_filter inLater)
  rw [same, repeated, Option.some_inj, Prod.mk.injEq] at claims
  rw [claims.2] at less
  exact UInt64.lt_irrefl _ less

/-- An initiation that is answered for one peer only is not answered twice. -/
theorem answers_at_most_once (kept : ∀ action ∈ calls, action ≠ .forgetPeer peer)
    (owner : ∀ answer ∈ node.answers crypto heap calls, answer.datagram = datagram → answer.peer = peer) :
    ((node.answers crypto heap calls).filter (·.datagram = datagram)).length ≤ 1 := by
  have own : (node.answers crypto heap calls).filter (·.datagram = datagram) =
      ((node.answers crypto heap calls).filter (·.peer = peer)).filter (·.datagram = datagram) := by
    rw [List.filter_filter]
    apply List.filter_congr
    intro answer member
    by_cases same : answer.datagram = datagram
    · simp [same, owner answer member same]
    · simp [same]
  rw [own]
  refine List.length_le_one_of_pairwise ((answers_distinct node calls kept).filter _) ?_
  intro first inFirst second inSecond apart
  exact apart.2 ((of_decide_eq_true (List.mem_filter.mp inFirst).2).trans
    (of_decide_eq_true (List.mem_filter.mp inSecond).2).symm)

/-- The timestamps answered for a peer increase, so that no initiation is answered twice for it; and
where nobody else has the key the initiation claims, it is not answered twice at all. -/
theorem initiations_answered_once (node : Node) (calls : List Call) (peer : PeerId)
    (kept : ∀ action ∈ calls, action ≠ .forgetPeer peer) :
    ((node.answers crypto heap calls).filter (·.peer = peer)).Pairwise (fun earlier later =>
        earlier.timestamp < later.timestamp ∧ earlier.datagram ≠ later.datagram) ∧
      ∀ datagram key timestamp, claimed crypto node.plane.localStatic datagram = some (key, timestamp) →
        node.Owns key peer →
        (∀ action ∈ calls, ∀ config, action = .addPeer config → config.staticPublic = key →
          config.id = peer) →
        ((node.answers crypto heap calls).filter (·.datagram = datagram)).length ≤ 1 := by
  refine ⟨answers_distinct node calls kept, fun datagram key timestamp claims owns added => ?_⟩
  exact answers_at_most_once kept fun answer member same => answers_owner owns added member (same ▸ claims)

/-- Node 1 dials node 2, which is under the id 7 there and knows node 1 as peer 9. -/
def sampleInitiation (timestamp : UInt64) : Bytes :=
  match (startHandshake Crypto.plain sortingHeap
    ((create Crypto.plain (Crypto.plainPair 1)).addPeer plainPeer).2 7 { plainDraws with timestamp } 0).1 with
  | .ok outgoing => outgoing.datagram
  | .error _ => []

def callerPeer : PeerConfig := { id := 9, staticPublic := (Crypto.plainPair 1).publicKey }

def responder : Node := ((create Crypto.plain (Crypto.plainPair 2)).addPeer callerPeer).2

def replayed : List Call :=
  List.replicate 3 (.handleDatagram {} (sampleInitiation 1) plainDraws 0)

theorem initiations_answered_once_replayed :
    responder.answers Crypto.plain sortingHeap replayed = [⟨9, 1, sampleInitiation 1⟩] ∧
      ((responder.answers Crypto.plain sortingHeap replayed).filter (·.peer = 9)).Pairwise
        (fun earlier later => earlier.timestamp < later.timestamp ∧ earlier.datagram ≠ later.datagram) := by
  refine ⟨by decide +kernel, (initiations_answered_once responder replayed 9 ?_).1⟩
  intro action member
  rw [List.eq_of_mem_replicate member]
  exact Call.noConfusion

def Call.Configures : Call → Prop
  | .addPeer _ | .forgetPeer _ => True
  | _ => False

/-- Whom an initiation is answered for is settled by the static key and the table of peers. -/
theorem authenticates_preserved (heap : HeapAlgorithms) (authenticated : Bytes → Option (PeerId × UInt64)) :
    Preserves heap (¬ ·.Configures) (fun node => node.authenticates crypto = authenticated) where
  step := by
    intro now answering before after step same
    cases step <;> exact same
  add := fun _ _ unchanged _ => (unchanged trivial).elim
  forget := fun _ _ unchanged _ => (unchanged trivial).elim
  expire := fun _ _ same => same

theorem answers_authenticated (unchanged : ∀ action ∈ calls, ¬ action.Configures)
    (member : answer ∈ node.answers crypto heap calls) :
    node.authenticates crypto answer.datagram = some (answer.peer, answer.timestamp) := by
  induction calls generalizing node with
  | nil => cases member
  | cons action calls ih =>
    obtain ⟨first, rest⟩ := List.forall_mem_cons.mp unchanged
    rcases mem_answers_cons member with found | later
    · exact (answered_spec found).authenticated
    · rw [← (authenticates_preserved heap (node.authenticates crypto)).call action first rfl]
      exact ih rest later

/-- As long as no peer is added or forgotten, no initiation is answered twice, whoever has its key. -/
theorem unchanged_peers_answered_once (unchanged : ∀ action ∈ calls, ¬ action.Configures) :
    ((node.answers crypto heap calls).filter (·.datagram = datagram)).length ≤ 1 := by
  have kept (peer : PeerId) : ∀ action ∈ calls, action ≠ .forgetPeer peer := by
    rintro action member rfl
    exact unchanged _ member trivial
  cases authenticated : node.authenticates crypto datagram with
  | none =>
    refine answers_at_most_once (kept 0) fun answer member same => ?_
    cases authenticated.symm.trans (same ▸ answers_authenticated unchanged member)
  | some found =>
    refine answers_at_most_once (kept found.1) fun answer member same => ?_
    cases authenticated.symm.trans (same ▸ answers_authenticated unchanged member)
    rfl

end Node

end Norr
