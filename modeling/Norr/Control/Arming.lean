import Norr.Control.Effects

/-! What the operations of the control plane leave on the wheel, with the provisional entries and the
peers that have a pending handshake. -/

namespace Norr

variable {crypto : Crypto} {heap : HeapAlgorithms} {now : Instant}

namespace Node

theorem schedule_plane (node : Node) (kind : TimerKind) (subject : UInt32) (due : Instant) :
    (node.schedule heap kind subject due).2.plane = node.plane := rfl

theorem cancel_plane (node : Node) (kind : TimerKind) (subject : UInt32) :
    (node.cancel heap kind subject).plane = node.plane := rfl

/-- The timers, the provisional entries and the peers with a pending handshake are as before. -/
structure Unmoved (before after : Node) : Prop where
  wheel : after.wheel = before.wheel
  provisional : after.plane.provisional = before.plane.provisional
  pending : ∀ peer, peer ∈ after.plane.pending ↔ peer ∈ before.plane.pending

theorem Unmoved.refl (node : Node) : Unmoved node node := ⟨rfl, rfl, fun _ => Iff.rfl⟩

theorem Unmoved.trans {first second third : Node} (early : Unmoved first second) (late : Unmoved second third) :
    Unmoved first third :=
  ⟨late.wheel.trans early.wheel, late.provisional.trans early.provisional,
    fun peer => (late.pending peer).trans (early.pending peer)⟩

theorem mem_setPending (node : Node) (peer other : PeerId) (entry : Pending) :
    other ∈ (node.setPending peer entry).plane.pending ↔ other = peer ∨ other ∈ node.plane.pending := by
  rw [setPending, ← AList.lookup_isSome, AList.lookup_put, ← AList.lookup_isSome]
  split_ifs with same <;> simp [same]

variable {node after : Node} {draws : Draws} {outcome : Except ControlError OutgoingHandshake}

theorem unmoved_setPending {peer : PeerId} {old : Pending} (found : node.plane.pending.lookup peer = some old)
    (entry : Pending) : Unmoved node (node.setPending peer entry) := by
  have present : peer ∈ node.plane.pending := AList.lookup_isSome.mp (by rw [found]; rfl)
  refine ⟨rfl, rfl, fun other => ?_⟩
  rw [mem_setPending]
  exact ⟨fun either => either.elim (fun same => same ▸ present) id, .inr⟩

theorem unmoved_allocateKeyId {outcome : Except ControlError UInt16} (ran : node.allocateKeyId = (outcome, after)) :
    Unmoved node after := by
  obtain ⟨table, -, rfl, -⟩ := allocateKeyId_spec ran
  exact ⟨rfl, rfl, fun _ => Iff.rfl⟩

def timeoutOf (peer : PeerId) (now : Instant) : TimerEvent := ⟨.handshakeTimeout, peer, now + kHandshakeTimeout⟩

/-- What build_initiation does to the wheel: nothing, all but the retry or both timers. -/
theorem buildInitiation_cases (lawful : heap.Lawful) {entry changed : Pending}
    (ran : node.buildInitiation crypto heap entry draws now = (outcome, changed, after)) :
    (∃ error, outcome = .error error) ∧ after = node ∨
      (∃ error, outcome = .error error) ∧ node.wheel.timers.length + 1 = kMaximumTimers ∧
        (∃ wheel, after = { node with wheel } ∧
          wheel.timers.Perm (timeoutOf entry.peer now :: node.wheel.timers)) ∨
      (∃ outgoing, outcome = .ok outgoing) ∧ ∃ wheel due, after = { node with wheel } ∧
        wheel.timers.Perm (⟨.handshakeRetry, entry.peer, due⟩ :: timeoutOf entry.peer now :: node.wheel.timers) := by
  unfold buildInitiation at ran
  split at ran
  next =>
    cases ran
    exact .inl ⟨⟨_, rfl⟩, rfl⟩
  next datagram built initiated =>
    simp only [schedule, initiation_peer initiated] at ran
    rcases node.wheel.schedule_cases lawful .handshakeTimeout entry.peer (now + kHandshakeTimeout) with
      ⟨full, refused⟩ | ⟨room, first, timed, timers⟩
    · simp only [refused] at ran
      cases ran
      exact .inl ⟨⟨_, rfl⟩, rfl⟩
    · simp only [timed] at ran
      have length : first.timers.length = node.wheel.timers.length + 1 := timers.length_eq
      rcases first.schedule_cases lawful .handshakeRetry entry.peer (now + retryBackoff built.attempt) with
        ⟨full, refused⟩ | ⟨-, second, retried, more⟩
      · simp only [refused] at ran
        cases ran
        exact .inr (.inl ⟨⟨_, rfl⟩, by omega, first, rfl, timers⟩)
      · simp only [retried] at ran
        cases ran
        exact .inr (.inr ⟨⟨_, rfl⟩, second, _, rfl, more.trans (timers.cons _)⟩)

theorem buildInitiation_keeps (lawful : heap.Lawful) {entry changed : Pending}
    (ran : node.buildInitiation crypto heap entry draws now = (outcome, changed, after)) :
    node.wheel.timers ⊆ after.wheel.timers ∧ after.plane.provisional = node.plane.provisional := by
  rcases buildInitiation_cases lawful ran with ⟨-, rfl⟩ | ⟨-, -, wheel, rfl, timers⟩ | ⟨-, wheel, due, rfl, timers⟩
  · exact ⟨List.Subset.refl _, rfl⟩
  · exact ⟨fun event member => timers.symm.subset (List.mem_cons_of_mem _ member), rfl⟩
  · exact ⟨fun event member => timers.symm.subset (List.mem_cons_of_mem _ (List.mem_cons_of_mem _ member)), rfl⟩

/-- What start_handshake leaves behind. -/
inductive Dials (now : Instant) (peer : PeerId) (before after : Node) : Prop
  | refused : Unmoved before after → Dials now peer before after
  | halfway : before.wheel.timers.length + 1 = kMaximumTimers →
      after.wheel.timers.Perm (timeoutOf peer now :: before.wheel.timers) →
      after.plane.provisional = before.plane.provisional → Dials now peer before after
  | armed (due : Instant) :
      after.wheel.timers.Perm (⟨.handshakeRetry, peer, due⟩ :: timeoutOf peer now :: before.wheel.timers) →
      after.plane.provisional = before.plane.provisional →
      (∀ other, other ∈ after.plane.pending ↔ other = peer ∨ other ∈ before.plane.pending) →
      Dials now peer before after

theorem startHandshake_dials (lawful : heap.Lawful) {peer : PeerId}
    (ran : node.startHandshake crypto heap peer draws now = (outcome, after)) : Dials now peer node after := by
  unfold startHandshake at ran
  split at ran
  next =>
    cases ran
    exact .refused (.refl node)
  next =>
    cases ran
    exact .refused (.refl node)
  next =>
    split_ifs at ran
    · cases ran
      exact .refused (.refl node)
    · split at ran
      next allocated =>
        cases ran
        exact .refused (unmoved_allocateKeyId allocated)
      next allocated =>
        obtain ⟨table, -, rfl, -⟩ := allocateKeyId_spec allocated
        split at ran
        next built =>
          cases ran
          rcases buildInitiation_cases lawful built with
            ⟨-, rfl⟩ | ⟨-, last, wheel, rfl, timers⟩ | ⟨⟨_, failed⟩, -⟩
          · exact .refused ⟨rfl, rfl, fun _ => Iff.rfl⟩
          · exact .halfway last timers rfl
          · cases failed
        next built =>
          cases ran
          rcases buildInitiation_cases lawful built with
            ⟨⟨_, failed⟩, -⟩ | ⟨⟨_, failed⟩, -⟩ | ⟨-, wheel, due, rfl, timers⟩
          · cases failed
          · cases failed
          · exact .armed due timers rfl (mem_setPending _ _ · _)

end Node

def Pending.accepts (crypto : Crypto) (entry : Pending) (reply : CookieReply) (now : Instant) : Bool :=
  entry.cookies.any fun cookies => (cookies.acceptReply crypto reply entry.lastMac1 now).isOk

namespace Node

/-- The datagram is a cookie reply that one of the pending handshakes accepts. -/
def takesCookie (crypto : Crypto) (node : Node) (datagram : Bytes) (now : Instant) : Bool :=
  match parseHandshakeFrame datagram with
  | .error _ => false
  | .ok frame =>
    match parseCookieReply frame.noiseMessage with
    | .error _ => false
    | .ok reply => frame.message = .cookieReply && node.plane.pending.entries.any (·.2.accepts crypto reply now)

variable {node after : Node} {outcome : Except ControlError (Option OutgoingHandshake)} {draws : Draws}
  {source : Endpoint} {peer : PeerId} {frame : HandshakeFrameView}

/-- A reply that no pending handshake accepts changes nothing. -/
theorem acceptCookie_cases (lawful : heap.Lawful) {reply : CookieReply}
    {entries : List (Sigma fun _ : PeerId => Pending)}
    (ran : acceptCookie crypto heap reply draws now entries node = (outcome, after)) :
    after = node ∨ entries.any (·.2.accepts crypto reply now) = true ∧
      node.wheel.timers ⊆ after.wheel.timers ∧ after.plane.provisional = node.plane.provisional := by
  rcases acceptCookie_retries (List.Subset.refl _) ran with
    ⟨same, -⟩ | ⟨peer, entry, held, opened, built, changed, timed, member, holds, accepted, tried, -, rfl⟩
  · exact .inl same
  · have accepts : entry.accepts crypto reply now = true := by
      simp [Pending.accepts, holds, accepted, Except.isOk, Except.toBool]
    have kept := buildInitiation_keeps lawful tried
    exact .inr ⟨List.any_eq_true.mpr ⟨_, member, accepts⟩, kept⟩

/-- An initiation is answered: a provisional entry, and its timeout if the wheel has room for it. -/
structure Enrols (heap : HeapAlgorithms) (now : Instant) (before after : Node) (entry : Provisional) : Prop where
  created : entry.created = now
  provisional : after.plane.provisional = before.plane.provisional.insert entry.localKeyId entry
  wheel : after.wheel =
    (before.wheel.schedule heap .provisionalTimeout entry.localKeyId.toUInt32 (now + kHandshakeTimeout)).2
  pending : ∀ peer, peer ∈ after.plane.pending ↔ peer ∈ before.plane.pending

theorem Enrols.of_unmoved {first second third : Node} {entry : Provisional} (unmoved : Unmoved first second)
    (answered : Enrols heap now second third entry) : Enrols heap now first third entry where
  created := answered.created
  provisional := unmoved.provisional ▸ answered.provisional
  wheel := unmoved.wheel ▸ answered.wheel
  pending peer := (answered.pending peer).trans (unmoved.pending peer)

theorem Responds.enrols (responds : Responds crypto heap frame now node outcome after) :
    Unmoved node after ∨ ∃ entry, Enrols heap now node after entry := by
  cases responds with
  | held payload table entry _ _ _ _ _ created _ => exact .inr ⟨entry, created, rfl, rfl, fun _ => Iff.rfl⟩
  | _ => exact .inl ⟨rfl, rfl, fun _ => Iff.rfl⟩

/-- A session takes the place of the pending handshake with the peer. -/
structure Completes (heap : HeapAlgorithms) (before after : Node) (peer : PeerId) : Prop where
  wheel : ∃ middle clock, Unmoved before middle ∧ after.wheel = (middle.armInitiator heap peer clock).wheel
  provisional : after.plane.provisional = before.plane.provisional
  pending : ∀ other, other ∈ after.plane.pending ↔ other ≠ peer ∧ other ∈ before.plane.pending

theorem Completes.of_unmoved {first second third : Node} (unmoved : Unmoved first second)
    (completes : Completes heap second third peer) : Completes heap first third peer := by
  obtain ⟨⟨middle, clock, same, timers⟩, provisional, pending⟩ := completes
  refine ⟨⟨middle, clock, unmoved.trans same, timers⟩, provisional.trans unmoved.provisional, fun other => ?_⟩
  rw [pending other, unmoved.pending other]

theorem armInitiator_plane (node : Node) (heap : HeapAlgorithms) (peer : PeerId) (clock : Instant) :
    (node.armInitiator heap peer clock).plane = node.plane := by
  simp only [armInitiator, List.foldl_cons, List.foldl_nil, schedule_plane]
  split_ifs <;> simp only [schedule_plane, cancel_plane]

theorem installSession_cases {localKeyId remoteKeyId : UInt16} {result : NoiseResult} {endpoint : Endpoint}
    {clock : Instant} {outcome : Except ControlError Unit}
    (ran : node.installSession heap peer localKeyId remoteKeyId result endpoint clock = (outcome, after)) :
    (∃ error, outcome = .error error) ∧ Unmoved node after ∨
      outcome = .ok () ∧ Completes heap node ((after.erasePending peer).pushKeepalive peer) peer := by
  simp only [installSession] at ran
  split at ran
  next =>
    cases ran
    exact .inl ⟨⟨_, rfl⟩, rfl, rfl, fun _ => Iff.rfl⟩
  next ref table _ =>
    cases ran
    let learned : Node := { node with table := table.update ref (·.noteAuthenticatedEndpoint endpoint) }
    have plane := (learned.learnEndpoint peer endpoint).armInitiator_plane heap peer clock
    refine .inr ⟨rfl, ⟨learned.learnEndpoint peer endpoint, clock, ⟨rfl, rfl, fun _ => Iff.rfl⟩, rfl⟩, ?_, ?_⟩
    · exact congrArg (·.provisional) plane
    · intro other
      have erased : ((((learned.learnEndpoint peer endpoint).armInitiator heap peer clock).erasePending
          peer).pushKeepalive peer).plane.pending = node.plane.pending.erase peer := by
        rw [pushKeepalive, erasePending, plane]
        rfl
      rw [erased, AList.mem_erase]

/-- The loop over the pending handshakes, for a response. -/
theorem acceptResponse_cases {clock : Instant} {entries : List (Sigma fun _ : PeerId => Pending)}
    (visits : Visits node entries)
    (ran : acceptResponse crypto heap source frame clock entries node = (outcome, after)) :
    Unmoved node after ∨ ∃ peer, Completes heap node after peer := by
  induction entries generalizing node with
  | nil =>
    cases ran
    exact .inl (.refl _)
  | cons head rest ih =>
    obtain ⟨peer, entry⟩ := head
    have further {middle : Node} (same : Unmoved node middle)
        (rest : Unmoved middle after ∨ ∃ peer, Completes heap middle after peer) :
        Unmoved node after ∨ ∃ peer, Completes heap node after peer :=
      rest.imp same.trans fun ⟨peer, completes⟩ => ⟨peer, completes.of_unmoved same⟩
    simp only [acceptResponse] at ran
    split at ran
    next =>
      split_ifs at ran
      · exact ih visits.tail ran
      · split at ran
        next handshake _ =>
          exact further (unmoved_setPending visits.head _) (ih (visits.write _) ran)
        next payload handshake _ =>
          have written := unmoved_setPending visits.head { entry with handshake := some handshake }
          split at ran
          next => exact further written (ih (visits.write _) ran)
          next result _ =>
            have completed : Unmoved node ((node.setPending peer
                { entry with handshake := some handshake }).complete result) :=
              written.trans ⟨rfl, rfl, fun _ => Iff.rfl⟩
            split_ifs at ran
            · exact further completed (ih ((visits.write _).complete result) ran)
            · split at ran
              next failed =>
                cases ran
                rcases installSession_cases failed with ⟨-, same⟩ | ⟨done, -⟩
                · exact .inl (completed.trans same)
                · cases done
              next installed =>
                cases ran
                rcases installSession_cases installed with ⟨⟨_, failed⟩, -⟩ | ⟨-, completes⟩
                · cases failed
                · exact .inr ⟨peer, completes.of_unmoved completed⟩
    next => exact ih visits.tail ran

/-- What handle_datagram leaves behind. -/
inductive Receives (crypto : Crypto) (heap : HeapAlgorithms) (datagram : Bytes) (now : Instant)
    (before after : Node) : Prop
  | nothing : Unmoved before after → Receives crypto heap datagram now before after
  | retried : before.takesCookie crypto datagram now = true → before.wheel.timers ⊆ after.wheel.timers →
      after.plane.provisional = before.plane.provisional → Receives crypto heap datagram now before after
  | answered (entry : Provisional) : Enrols heap now before after entry →
      Receives crypto heap datagram now before after
  | completed (peer : PeerId) : Completes heap before after peer → Receives crypto heap datagram now before after

theorem handleDatagram_receives (lawful : heap.Lawful) {datagram : Bytes}
    (ran : node.handleDatagram crypto heap source datagram draws now = (outcome, after)) :
    Receives crypto heap datagram now node after := by
  cases handleDatagram_handles ran with
  | refused error failed same =>
    rw [same]
    exact .nothing (.refl node)
  | cookie frame reply parsed kind read accepted =>
    rcases acceptCookie_cases lawful accepted with rfl | ⟨taken, timers, provisional⟩
    · exact .nothing (.refl _)
    · refine .retried ?_ timers provisional
      simp only [takesCookie, parsed, read, kind, taken, decide_true, Bool.and_true]
  | challenged frame parsed kind challenged =>
    obtain ⟨⟨issuer, rfl⟩, -⟩ := challenge_ran heap challenged
    exact .nothing ⟨rfl, rfl, fun _ => Iff.rfl⟩
  | initiation frame passed parsed challenged responds =>
    obtain ⟨⟨issuer, rfl⟩, -⟩ := challenge_ran heap challenged
    have same : Unmoved node { node with plane := { node.plane with issuer } } := ⟨rfl, rfl, fun _ => Iff.rfl⟩
    rcases responds.enrols with unmoved | ⟨entry, enrols⟩
    · exact .nothing (same.trans unmoved)
    · exact .answered entry (enrols.of_unmoved same)
  | response frame parsed kind accepted =>
    exact (acceptResponse_cases (visits_all node) accepted).elim .nothing
      fun ⟨peer, completes⟩ => .completed peer completes

end Node

end Norr
