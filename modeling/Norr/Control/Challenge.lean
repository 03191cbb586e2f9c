import Norr.Control.Initiations
import Norr.Crypto.Expiry

/-! The cookie challenge of a responder under load, from the first initiation to the one that passes. -/

namespace Norr

open Octets

/-- The holder authenticates to the owner of the static key. -/
structure CookieHolder.For (crypto : Crypto) (responderStatic : PublicKey) (holder : CookieHolder) :
    Prop where
  mac1Key : holder.mac1Key = Norr.mac1Key crypto responderStatic
  cookieKey : holder.cookieKey = Norr.cookieKey crypto responderStatic

theorem CookieHolder.create_for (crypto : Crypto) (responderStatic : PublicKey) :
    (CookieHolder.create crypto responderStatic).For crypto responderStatic := ⟨rfl, rfl⟩

/-- An initiation on the wire: the Noise message and the two MACs of a cookie holder over it. -/
def macFrame (crypto : Crypto) (holder : CookieHolder) (message : Bytes) : HandshakeFrameView :=
  let covered := envelope .init message.length ++ message
  let mac1 := holder.computeMac1 crypto covered
  { message := .init
    noiseMessage := message
    hasMacs := true
    mac1 := mac1.toList
    mac2 := (holder.computeMac2 crypto (covered ++ mac1.toList)).toList
    mac1Covered := covered
    mac2Covered := covered ++ mac1.toList }

namespace CookieIssuer

/-- Of the two secrets one is the given one, and it will be until a lifetime after `since`. -/
structure Compares (secret : Octets 32) (since : Instant) (issuer : CookieIssuer) : Prop where
  phase : issuer.secret = secret ∧ issuer.secretCreated ≠ 0 ∨
    (issuer.hasPrevious = true ∧ issuer.previousSecret = secret) ∧
      (issuer.secretCreated = 0 ∨ since ≤ issuer.secretCreated)

variable {now : Instant}

theorem Compares.refresh {secret drawn : Octets 32} {since : Instant} {issuer : CookieIssuer}
    (compares : issuer.Compares secret since) (after : since ≤ now) (within : now < since + kCookieSecretLifetime) :
    (issuer.refresh drawn now).Compares secret since := by
  have young (made : since ≤ issuer.secretCreated) : ¬ kCookieSecretLifetime ≤ now - issuer.secretCreated := by
    intro aged
    exact absurd within (not_lt.mpr ((Int.add_le_add_right made _).trans (Int.add_le_of_le_sub_left aged)))
  rcases compares.phase with ⟨current, made⟩ | ⟨⟨kept, previous⟩, made⟩
  · unfold CookieIssuer.refresh
    split_ifs
    · exact ⟨.inr ⟨⟨rfl, current⟩, .inr after⟩⟩
    · exact ⟨.inl ⟨current, made⟩⟩
  · unfold CookieIssuer.refresh
    by_cases epoch : issuer.secretCreated = 0
    · simp only [epoch, true_or, if_true, ne_eq, not_true_eq_false, if_false]
      exact ⟨.inr ⟨⟨kept, previous⟩, .inr after⟩⟩
    · rw [if_neg (not_or.mpr ⟨epoch, young (made.resolve_left epoch)⟩)]
      exact ⟨.inr ⟨⟨kept, previous⟩, made⟩⟩

/-- Right after a refresh at any time but the epoch. -/
theorem compares_refreshed (issuer : CookieIssuer) (drawn : Octets 32) (later : now ≠ 0) :
    (issuer.refresh drawn now).Compares (issuer.refresh drawn now).secret now := by
  unfold CookieIssuer.refresh
  split_ifs with aged made
  · exact ⟨.inl ⟨rfl, later⟩⟩
  · exact ⟨.inl ⟨rfl, later⟩⟩
  · exact ⟨.inl ⟨rfl, fun epoch => aged (.inl epoch)⟩⟩

theorem Compares.verifyMac2 {crypto : Crypto} {secret drawn : Octets 32} {since : Instant} {issuer : CookieIssuer}
    (compares : issuer.Compares secret since) (after : since ≤ now) (within : now < since + kCookieSecretLifetime)
    (source : Endpoint) (message : Bytes) :
    (issuer.verifyMac2 crypto source message
      (keyedMac crypto (cookieFor crypto secret source).toList message) drawn now).1 = true := by
  simp only [CookieIssuer.verifyMac2, Bool.or_eq_true, Bool.and_eq_true, decide_eq_true_eq]
  have refreshed : (issuer.refresh drawn now).Compares secret since := compares.refresh after within
  rcases refreshed.phase with ⟨current, -⟩ | ⟨⟨kept, previous⟩, -⟩
  · exact .inl (by rw [current])
  · exact .inr ⟨kept, by rw [previous]⟩

end CookieIssuer

namespace Node

variable {crypto : Crypto} {heap : HeapAlgorithms} {now : Instant}
variable {node after : Node} {draws : Draws} {entry : Pending}

theorem initiation_framed {changed : Pending} {datagram : Bytes}
    (built : node.initiation crypto entry draws now = .ok (datagram, changed)) :
    ∃ config holder message, node.findPeer entry.peer = some config ∧
      holder = entry.cookies.getD (CookieHolder.create crypto config.staticPublic) ∧
      parseHandshakeFrame datagram = .ok (macFrame crypto holder message) ∧
      changed.cookies = some holder ∧
      changed.lastMac1 = holder.computeMac1 crypto (envelope .init message.length ++ message) := by
  obtain ⟨config, -, message, _, holder, mac1, found, -, -, holds, rfl, small, rfl, rfl⟩ := initiation_parts built
  refine ⟨config, holder, message, found, holds, ?_, rfl, rfl⟩
  exact parse_framed .init message _ _ small (toList_length _) (toList_length _)

/-- A cookie that comes back from an initiation is the reply of the issuer to its first MAC. -/
theorem handleDatagram_challenged {source : Endpoint} {datagram : Bytes} {frame : HandshakeFrameView}
    {reply : OutgoingHandshake} (parsed : parseHandshakeFrame datagram = .ok frame) (init : frame.message = .init)
    (ran : node.handleDatagram crypto heap source datagram draws now = (.ok (some reply), after))
    (cookie : reply.datagram.head? = some HandshakeMessage.cookieReply.code) :
    ∃ cookieReply, (node.plane.issuer.refresh draws.verifySecret now).buildReply crypto source 0
        (ofBytes 16 frame.mac1) draws.replySecret draws.cookieNonce now =
          (.ok cookieReply, after.plane.issuer) ∧
      reply.datagram = envelope .cookieReply (serializeCookieReply cookieReply).length ++
        serializeCookieReply cookieReply ∧
      after.plane.issuer =
        (node.plane.issuer.refresh draws.verifySecret now).refresh draws.replySecret now := by
  cases handleDatagram_handles ran with
  | refused error failed => cases failed
  | cookie other _ read kind =>
    cases parsed.symm.trans read
    rw [init] at kind
    cases kind
  | challenged other read kind challenged =>
    cases parsed.symm.trans read
    simp only [challenge] at challenged
    split_ifs at challenged
    · cases challenged
    · split at challenged
      · cases challenged
      · rename_i built
        split at challenged
        · cases challenged
        · rename_i framed
          cases challenged
          exact ⟨_, Prod.ext built rfl, (serializeHandshakeFrame_ok framed).2, buildReply_issuer ..⟩
    · cases challenged
  | initiation _ _ _ _ responds =>
    have response := (responds.ran.frames reply List.mem_cons_self).head
    rw [cookie] at response
    cases response
  | response other read kind =>
    cases parsed.symm.trans read
    rw [init] at kind
    cases kind

theorem buildInitiation_ok {changed : Pending} {outgoing : OutgoingHandshake}
    (ran : node.buildInitiation crypto heap entry draws now = (.ok outgoing, changed, after)) :
    node.initiation crypto entry draws now = .ok (outgoing.datagram, changed) := by
  unfold buildInitiation at ran
  split at ran
  · cases ran
  · rename_i built
    split at ran
    · cases ran
    · split at ran
      · cases ran
      · cases ran
        exact built

theorem compares_steps {answering : Prop} {secret : Octets 32} {since : Instant} {before : Node}
    (steps : Steps heap now answering before after)
    (inTime : answering → since ≤ now ∧ now < since + kCookieSecretLifetime)
    (compares : before.plane.issuer.Compares secret since) : after.plane.issuer.Compares secret since := by
  induction steps with
  | refl => exact compares
  | tail _ step ih =>
    cases step with
    | refresh drawn answers => exact ih.refresh (inTime answers).1 (inTime answers).2
    | load value => exact ⟨ih.phase⟩
    | _ => exact ih

theorem compares_run {secret : Octets 32} {since : Instant} (calls : List Call)
    (inTime : ∀ action ∈ calls, action.Answers → since ≤ action.time ∧ action.time < since + kCookieSecretLifetime)
    (compares : node.plane.issuer.Compares secret since) :
    (node.run crypto heap calls).plane.issuer.Compares secret since := by
  induction calls generalizing node with
  | nil => exact compares
  | cons action calls ih =>
    obtain ⟨first, rest⟩ := List.forall_mem_cons.mp inTime
    have next : (node.call crypto heap action).plane.issuer.Compares secret since := by
      by_cases stepwise : action.Stepwise
      · exact compares_steps (call_steps node stepwise) first compares
      · cases action with
        | addPeer config =>
          simp only [Node.call, Node.addPeer]
          split_ifs <;> exact compares
        | forgetPeer peer =>
          rw [Node.call, forgetPeer_frame]
          exact compares
        | expireTimers now => exact compares
        | _ => exact (stepwise trivial).elim
    exact ih rest next

/-- The keys of the issuer never change. -/
theorem issuer_keys_preserved (heap : HeapAlgorithms) (mac1Key cookieKey : Octets 32) :
    Preserves heap (fun _ => True) (fun node =>
      node.plane.issuer.mac1Key = mac1Key ∧ node.plane.issuer.cookieKey = cookieKey) where
  step := by
    intro now answering before after step keys
    cases step with
    | refresh drawn _ => simpa using keys
    | _ => exact keys
  add := by
    intro node config _ keys
    unfold Node.addPeer
    split_ifs <;> exact keys
  forget := by
    intro node peer _ keys
    rw [forgetPeer_frame]
    exact keys
  expire := fun _ _ keys => keys

/-- Node A sends an initiation, node B answers it with a cookie, and A accepts the cookie. -/
structure CookieExchange (crypto : Crypto) (heap : HeapAlgorithms) where
  -- B, with what it has done so far
  localStatic : KeyPair
  before : List Call
  -- A, when it builds the initiation for the peer that is B
  initiator : Node
  blank : Pending
  config : PeerConfig
  known : initiator.findPeer blank.peer = some config
  static : config.staticPublic = localStatic.publicKey
  holders : ∀ holder, blank.cookies = some holder → holder.For crypto localStatic.publicKey
  sendDraws : Draws
  sentAt : Instant
  datagram : Bytes
  entry : Pending
  sent : initiator.initiation crypto blank sendDraws sentAt = .ok (datagram, entry)
  -- B answers with a cookie
  source : Endpoint
  time : Instant
  draws : Draws
  reply : OutgoingHandshake
  challenged : Node
  answered : ((create crypto localStatic).run crypto heap before).handleDatagram crypto heap source datagram
    draws time = (.ok (some reply), challenged)
  cookie : reply.datagram.head? = some HandshakeMessage.cookieReply.code
  -- A still waits with that initiation when the reply arrives, which no other handshake opens
  waiting : Node
  pending : waiting.plane.pending.lookup blank.peer = some entry
  acceptedAt : Instant
  alone : ∀ frame cookieReply, parseHandshakeFrame reply.datagram = .ok frame →
    parseCookieReply frame.noiseMessage = .ok cookieReply →
    ∀ other ∈ waiting.plane.pending.entries, other.1 ≠ blank.peer → ∀ held, other.2.cookies = some held →
      ∃ error, held.acceptReply crypto cookieReply other.2.lastMac1 acceptedAt = .error error
  replySource : Endpoint
  replyDraws : Draws
  retry : OutgoingHandshake
  after : Node
  accepted : waiting.handleDatagram crypto heap replySource reply.datagram replyDraws acceptedAt =
    (.ok (some retry), after)

namespace CookieExchange

variable (exchange : CookieExchange crypto heap)

/-- The initiation carries the MACs of a holder for B. -/
theorem sent_framed : ∃ holder message,
    parseHandshakeFrame exchange.datagram = .ok (macFrame crypto holder message) ∧
      holder.For crypto exchange.localStatic.publicKey ∧ exchange.entry.cookies = some holder ∧
      exchange.entry.lastMac1 = holder.computeMac1 crypto (envelope .init message.length ++ message) := by
  obtain ⟨config, holder, message, found, holds, parsed, own, lastMac1⟩ := initiation_framed exchange.sent
  refine ⟨holder, message, parsed, ?_, own, lastMac1⟩
  rw [exchange.known, Option.some_inj] at found
  subst found
  rw [holds]
  cases present : exchange.blank.cookies with
  | none =>
    rw [Option.getD_none, exchange.static]
    exact CookieHolder.create_for crypto _
  | some kept => exact exchange.holders kept present

/-- The keys of B's issuer, whatever it has done. -/
theorem responder_keys (calls : List Call) :
    ((create crypto exchange.localStatic).run crypto heap calls).plane.issuer.mac1Key =
        Norr.mac1Key crypto exchange.localStatic.publicKey ∧
      ((create crypto exchange.localStatic).run crypto heap calls).plane.issuer.cookieKey =
        Norr.cookieKey crypto exchange.localStatic.publicKey :=
  (issuer_keys_preserved heap _ _).run calls (fun _ _ => trivial) ⟨rfl, rfl⟩

/-- The retry carries the MACs of a holder for B with the cookie that B computed for the source. -/
theorem retry_framed (inverts : crypto.CookiesInvert) : ∃ holder message,
    parseHandshakeFrame exchange.retry.datagram = .ok (macFrame crypto holder message) ∧
      holder.For crypto exchange.localStatic.publicKey ∧ holder.hasCookie = true ∧
      holder.cookie = CookieIssuer.cookieFor crypto exchange.challenged.plane.issuer.secret
        exchange.source := by
  obtain ⟨holder, message, parsed, meant, own, lastMac1⟩ := exchange.sent_framed
  obtain ⟨cookieReply, built, framed, same⟩ :=
    handleDatagram_challenged parsed rfl exchange.answered exchange.cookie
  have issuerKey : holder.cookieKey =
      (((create crypto exchange.localStatic).run crypto heap exchange.before).plane.issuer.refresh
        exchange.draws.verifySecret exchange.time).cookieKey := by
    rw [CookieIssuer.refresh_cookieKey, (exchange.responder_keys exchange.before).2, meant.cookieKey]
  have mac1 : ofBytes 16 (macFrame crypto holder message).mac1 = exchange.entry.lastMac1 := by
    rw [lastMac1]
    exact ofBytes_toList _
  rw [mac1] at built
  have accepts : holder.acceptReply crypto cookieReply exchange.entry.lastMac1 exchange.acceptedAt = .ok _ :=
    acceptReply_buildReply inverts issuerKey built
  have bare := parse_bare .cookieReply (serializeCookieReply cookieReply)
    (by rw [serializeCookieReply_length]; decide)
  rw [← framed] at bare
  have ran := exchange.accepted
  unfold handleDatagram at ran
  split_ifs at ran
  · cases ran
  · simp only [bare, handleCookieReply, parse_serializeCookieReply] at ran
    rcases acceptCookie_retries (List.Subset.refl _) ran with
      ⟨-, failed⟩ | ⟨peer, entry, held, opened, built, changed, timed, member, holds, opens, tried, sent, -⟩
    · cases failed
    -- no other entry opens the reply
    obtain rfl : peer = exchange.blank.peer := by
      by_contra foreign
      obtain ⟨error, refused⟩ :=
        exchange.alone _ _ bare (parse_serializeCookieReply cookieReply) _ member foreign held holds
      cases opens.symm.trans refused
    obtain rfl : entry = exchange.entry :=
      Option.some_inj.mp (((AList.mem_entries_iff _ _ _).mp member).symm.trans exchange.pending)
    obtain rfl : held = holder := Option.some_inj.mp (holds.symm.trans own)
    cases accepts.symm.trans opens
    cases built with
    | error error => cases sent
    | ok retry =>
      obtain rfl : retry = exchange.retry := by simpa [Except.map] using sent.symm
      obtain ⟨config, kept, retried, -, rfl, reparsed, -, -⟩ := initiation_framed (buildInitiation_ok tried)
      refine ⟨_, retried, reparsed, ⟨meant.mac1Key, meant.cookieKey⟩, rfl, ?_⟩
      rw [same, Option.getD_some]

/-- B's state after the challenge is one it reaches. -/
theorem challenged_run (calls : List Call) : exchange.challenged.run crypto heap calls =
    (create crypto exchange.localStatic).run crypto heap (exchange.before ++
      .handleDatagram exchange.source exchange.datagram exchange.draws exchange.time :: calls) := by
  simp only [Node.run, List.foldl_append, List.foldl_cons]
  have answered := exchange.answered
  simp only [Node.run] at answered
  rw [Node.call, answered]

/-- B keeps the secret of the cookie for as long as a secret lives. -/
theorem challenged_compares (later : exchange.time ≠ 0) : exchange.challenged.plane.issuer.Compares
    exchange.challenged.plane.issuer.secret exchange.time := by
  obtain ⟨holder, message, parsed, -⟩ := exchange.sent_framed
  obtain ⟨cookieReply, -, -, same⟩ :=
    handleDatagram_challenged parsed rfl exchange.answered exchange.cookie
  rw [same]
  exact CookieIssuer.compares_refreshed _ _ later

end CookieExchange

/-- However B goes on, it then lets the retry pass to the Noise handshake. -/
theorem cookie_challenge_completes (inverts : crypto.CookiesInvert) (exchange : CookieExchange crypto heap)
    (later : exchange.time ≠ 0) (calls : List Call) :
    ∃ frame, parseHandshakeFrame exchange.retry.datagram = .ok frame ∧ frame.message = .init ∧
      frame.hasMacs = true ∧
      (exchange.challenged.run crypto heap calls).plane.issuer.verifyMac1 crypto frame.mac1Covered
        (ofBytes 16 frame.mac1) = true ∧
      ∀ source draws now, source.address = exchange.source.address →
        (∀ action ∈ calls, action.Answers → exchange.time ≤ action.time ∧ action.time ≤ now) →
        exchange.time ≤ now → now < exchange.time + seconds 120 →
        ((exchange.challenged.run crypto heap calls).plane.issuer.verifyMac2 crypto source frame.mac2Covered
            (ofBytes 16 frame.mac2) draws.verifySecret now).1 = true ∧
          ((exchange.challenged.run crypto heap calls).challenge crypto source frame draws now).1 = none := by
  obtain ⟨holder, message, parsed, meant, held, cookie⟩ := exchange.retry_framed inverts
  refine ⟨_, parsed, rfl, rfl, ?_, ?_⟩
  · rw [exchange.challenged_run]
    simp only [CookieIssuer.verifyMac1, CookieIssuer.computeMac1, exchange.responder_keys, macFrame,
      CookieHolder.computeMac1, meant.mac1Key, ofBytes_toList, decide_true]
  · intro source draws now sameAddress ordered after within
    have inTime : ∀ action ∈ calls, action.Answers →
        exchange.time ≤ action.time ∧ action.time < exchange.time + kCookieSecretLifetime := by
      intro action called answers
      obtain ⟨early, late⟩ := ordered action called answers
      exact ⟨early, lt_of_le_of_lt late within⟩
    have compares : (exchange.challenged.run crypto heap calls).plane.issuer.Compares _ _ :=
      compares_run calls inTime (exchange.challenged_compares later)
    have mac2 : ofBytes 16 (macFrame crypto holder message).mac2 = keyedMac crypto
        (CookieIssuer.cookieFor crypto exchange.challenged.plane.issuer.secret source).toList
        (macFrame crypto holder message).mac2Covered := by
      simp only [macFrame, CookieHolder.computeMac2, held, cookie, ofBytes_toList,
        CookieIssuer.cookieFor, sameAddress, if_true]
    have passed : ((exchange.challenged.run crypto heap calls).plane.issuer.verifyMac2 crypto source
        (macFrame crypto holder message).mac2Covered (ofBytes 16 (macFrame crypto holder message).mac2)
        draws.verifySecret now).1 = true := by
      rw [mac2]
      exact compares.verifyMac2 after within source _
    refine ⟨passed, ?_⟩
    simp only [challenge, passed, if_true]
    split_ifs <;> rfl

section Sample

open CookieRun

theorem openMac_cookiesInvert : openMac.CookiesInvert :=
  fun _ _ _ _ => ⟨_, rfl, by simp [kAeadTagSize], by simp [openMac, Crypto.plain]⟩

def dialler : Node := ((create openMac (Crypto.plainPair 1)).addPeer plainPeer).2

def firstDial : Pending := { peer := 7, localKeyId := 1, destination := {} }

def dialled : Bytes × Pending := (dialler.initiation openMac firstDial plainDraws 0).toOption.getD ([], firstDial)

/-- The draws of a responder whose secret shows the octet. -/
def secretDraws (octet : UInt8) : Draws := { plainDraws with verifySecret := Vector.replicate 32 octet }

def loaded (time : Instant) : Except ControlError (Option OutgoingHandshake) × Node :=
  ((create openMac (Crypto.plainPair 2)).run openMac sortingHeap [.setUnderLoad true]).handleDatagram openMac
    sortingHeap {} dialled.1 (secretDraws 2) time

def awaiting : Node := dialler.setPending 7 dialled.2

def retried (reply : OutgoingHandshake) : Except ControlError (Option OutgoingHandshake) × Node :=
  awaiting.handleDatagram openMac sortingHeap {} reply.datagram plainDraws 0

def sentBy (ran : Except ControlError (Option OutgoingHandshake) × Node) : OutgoingHandshake :=
  ran.1.toOption.join.getD ⟨{}, []⟩

theorem sentBy_eq {ran : Except ControlError (Option OutgoingHandshake) × Node}
    (sends : ran.1 = .ok (some (sentBy ran))) : ran = (.ok (some (sentBy ran)), ran.2) := Prod.ext sends rfl

/-- Node 2, under load, challenges node 1 at the given time. -/
def challengeAt (time : Instant) (answers : (loaded time).1 = .ok (some (sentBy (loaded time))))
    (cookie : (sentBy (loaded time)).datagram.head? = some HandshakeMessage.cookieReply.code)
    (accepts : (retried (sentBy (loaded time))).1 = .ok (some (sentBy (retried (sentBy (loaded time)))))) :
    CookieExchange openMac sortingHeap where
  localStatic := Crypto.plainPair 2
  before := [.setUnderLoad true]
  initiator := dialler
  blank := firstDial
  config := plainPeer
  known := rfl
  static := rfl
  holders := by simp [firstDial]
  sendDraws := plainDraws
  sentAt := 0
  datagram := dialled.1
  entry := dialled.2
  sent := rfl
  source := {}
  time := time
  draws := secretDraws 2
  reply := sentBy (loaded time)
  challenged := (loaded time).2
  answered := sentBy_eq answers
  cookie := cookie
  waiting := awaiting
  pending := by
    rw [awaiting, setPending]
    exact (AList.lookup_put _ _ _ _).trans (if_pos rfl)
  acceptedAt := 0
  alone := by
    intro frame cookieReply _ _ other member foreign
    have another : other.1 ≠ 7 := foreign
    have found := (AList.mem_entries_iff _ other.1 other.2).mp member
    rw [awaiting, setPending, AList.lookup_put, if_neg another] at found
    cases found
  replySource := {}
  replyDraws := plainDraws
  retry := sentBy (retried (sentBy (loaded time)))
  after := (retried (sentBy (loaded time))).2
  accepted := sentBy_eq accepts

set_option maxRecDepth 100000 in
def challengeLater : CookieExchange openMac sortingHeap :=
  challengeAt (seconds 1) rfl rfl rfl

set_option maxRecDepth 100000 in
def challengeAtEpoch : CookieExchange openMac sortingHeap :=
  challengeAt 0 rfl rfl rfl

theorem cookie_challenge_completes_later :
    ∃ frame, parseHandshakeFrame challengeLater.retry.datagram = .ok frame ∧
      ((challengeLater.challenged.run openMac sortingHeap
        [.handleDatagram {} challengeLater.datagram (secretDraws 3) (seconds 61)]).challenge openMac
          { port := 9 } frame (secretDraws 4) (seconds 120)).1 = none := by
  obtain ⟨frame, parsed, -, -, -, passes⟩ := cookie_challenge_completes openMac_cookiesInvert challengeLater
    (by decide +kernel) [.handleDatagram {} challengeLater.datagram (secretDraws 3) (seconds 61)]
  refine ⟨frame, parsed, (passes _ _ _ (by decide +kernel) ?_ (by decide +kernel) (by decide +kernel)).2⟩
  intro action member _
  rw [List.mem_singleton.mp member]
  exact ⟨by decide +kernel, by decide +kernel⟩

/-- The secret of a challenge at the epoch of the clock counts as none and is not kept. -/
theorem epoch_challenge_repeated : challengeAtEpoch.time = 0 ∧
    (∀ action ∈ [Call.handleDatagram {} challengeAtEpoch.datagram (secretDraws 3) (seconds 1)],
      challengeAtEpoch.time ≤ action.time ∧ action.time ≤ seconds 2) ∧
    seconds 2 < challengeAtEpoch.time + seconds 120 ∧
    ((parseHandshakeFrame challengeAtEpoch.retry.datagram).toOption.map fun frame =>
      let responder := challengeAtEpoch.challenged.run openMac sortingHeap
        [.handleDatagram {} challengeAtEpoch.datagram (secretDraws 3) (seconds 1)]
      ((responder.plane.issuer.verifyMac2 openMac challengeAtEpoch.source frame.mac2Covered
        (ofBytes 16 frame.mac2) (secretDraws 4).verifySecret (seconds 2)).1,
        (responder.challenge openMac challengeAtEpoch.source frame (secretDraws 4) (seconds 2)).1.isSome)) =
      some (false, true) := by
  refine ⟨rfl, ?_, by decide +kernel, by decide +kernel⟩
  intro action member
  rw [List.mem_singleton.mp member]
  exact ⟨by decide +kernel, by decide +kernel⟩

end Sample

end Node

end Norr
