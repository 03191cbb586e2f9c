import Norr.Control.Effects
import Norr.Lib.Lists
import Norr.Worker.Receive

/-! The ledger of the data plane: which sessions a node has made out of which handshakes, which
counters they gave out and which packets they delivered.

`Ledger.Step` says once all that a call of the Worker or of the ControlPlane can do to it. -/

namespace Norr

/-- The two sessions agree in all that the ledger is about. -/
structure Session.Alike (first second : Session) : Prop where
  peer : first.peer = second.peer
  keys : first.keys = second.keys
  counter : first.sendCounter = second.sendCounter
  sent : first.sent = second.sent
  replay : first.replay = second.replay

theorem Session.Alike.refl (session : Session) : session.Alike session := ⟨rfl, rfl, rfl, rfl, rfl⟩

/-- A delivery of what the key authenticated, with the inner packet of its plaintext handed on. -/
def Delivery.Genuine (crypto : Crypto) (delivery : Delivery) : Prop :=
  (∃ view room, parsePacket delivery.packet = .ok view ∧ view.header.counter = delivery.counter ∧
    view.header.type = delivery.type ∧
    crypto.open delivery.key delivery.counter (delivery.packet.take kPacketHeaderSize) view.payload room =
      .ok delivery.plaintext) ∧
  delivery.handed = if delivery.type = .control then none
    else (Worker.innerPacket delivery.routes delivery.peer delivery.plaintext).toOption

def Sealing.use (sealing : Sealing) : SessionRef × UInt64 := (sealing.session, sealing.counter)

def Delivery.use (delivery : Delivery) : SessionRef × UInt64 := (delivery.session, delivery.counter)

structure Ledger where
  sessions : List Session
  provisional : AList (fun _ : UInt16 => Provisional)
  completed : List NoiseResult
  reserved : List (SessionRef × UInt64)
  sealed : List Sealing
  deliveries : List Delivery

namespace Ledger

variable (crypto : Crypto)

inductive Step : Ledger → Ledger → Prop
  | complete (ledger : Ledger) (result : NoiseResult) :
      Step ledger { ledger with completed := ledger.completed ++ [result] }
  | hold (ledger : Ledger) (entry : Provisional) :
      Step ledger { ledger with
        completed := ledger.completed ++ [entry.result]
        provisional := ledger.provisional.insert entry.localKeyId entry }
  | release (ledger : Ledger) (kept : AList fun _ : UInt16 => Provisional) :
      kept.entries.Sublist ledger.provisional.entries → Step ledger { ledger with provisional := kept }
  | establish (ledger : Ledger) (result : NoiseResult) (session : Session) :
      session.MadeOf result → session.replay = {} → Step ledger { ledger with
        completed := ledger.completed ++ [result]
        sessions := ledger.sessions ++ [session] }
  | promote (ledger : Ledger) (keyId : UInt16) (entry : Provisional) (session : Session)
      (delivery : Delivery) :
      ledger.provisional.lookup keyId = some entry → session.MadeOf entry.result →
      session.replay = (ReplayWindow.accept {} delivery.counter).2 →
      delivery.session = ledger.sessions.length → delivery.key = session.receiveKey →
      delivery.peer = session.peer → delivery.Genuine crypto →
      Step ledger { ledger with
        provisional := ledger.provisional.erase keyId
        sessions := ledger.sessions ++ [session]
        deliveries := ledger.deliveries ++ [delivery] }
  | reserve (ledger : Ledger) (ref : SessionRef) (session after : Session) (counter : UInt64) :
      ledger.sessions[ref]? = some session → session.reserveCounter = (.ok counter, after) →
      Step ledger { ledger with
        sessions := ledger.sessions.modify ref fun _ => after
        reserved := ledger.reserved ++ [(ref, counter)] }
  | spend (ledger : Ledger) (ref : SessionRef) (session : Session) (counter : UInt64)
      (rest : List (SessionRef × UInt64)) :
      ledger.reserved.Perm ((ref, counter) :: rest) → ledger.sessions[ref]? = some session →
      Step ledger { ledger with
        reserved := rest
        sealed := ledger.sealed ++ [⟨ref, session.sendKey, counter⟩] }
  | burn (ledger : Ledger) (reservation : SessionRef × UInt64) (rest : List (SessionRef × UInt64)) :
      ledger.reserved.Perm (reservation :: rest) → Step ledger { ledger with reserved := rest }
  | refuse (ledger : Ledger) (ref : SessionRef) (session after : Session) (counter : UInt64)
      (now : Instant) (error : SessionError) :
      ledger.sessions[ref]? = some session → session.commit counter now = (.error error, after) →
      Step ledger { ledger with sessions := ledger.sessions.modify ref fun _ => after }
  | accept (ledger : Ledger) (session after noted : Session) (now : Instant) (delivery : Delivery) :
      ledger.sessions[delivery.session]? = some session →
      session.commit delivery.counter now = (.ok (), after) → noted.Alike after →
      (session.Metered → noted.Metered) →
      delivery.key = session.receiveKey → delivery.peer = session.peer → delivery.Genuine crypto →
      Step ledger { ledger with
        sessions := ledger.sessions.modify delivery.session fun _ => noted
        deliveries := ledger.deliveries ++ [delivery] }

abbrev Steps : Ledger → Ledger → Prop := Relation.ReflTransGen (Step crypto)

variable {crypto : Crypto} {ledger after : Ledger}

def provisionalKeys (provisional : AList fun _ : UInt16 => Provisional) : List (TrafficKey × TrafficKey) :=
  provisional.entries.map fun entry => entry.2.result.keys

/-- Every provisional entry is found under its own key id. -/
def Keyed (ledger : Ledger) : Prop :=
  ∀ keyId entry, ledger.provisional.lookup keyId = some entry → entry.localKeyId = keyId

theorem Keyed.step (keyed : ledger.Keyed) (step : Step crypto ledger after) : after.Keyed := by
  intro keyId entry found
  cases step with
  | hold held =>
    rw [AList.lookup_insert_eq] at found
    split_ifs at found with same
    · cases found
      exact same.symm
    · exact keyed keyId entry found
  | release kept sublist =>
    rw [← AList.mem_entries_iff] at found
    exact keyed keyId entry ((AList.mem_entries_iff _ _ _).mp (sublist.subset found))
  | promote => exact keyed keyId entry (AList.of_lookup_erase found).2
  | _ => exact keyed keyId entry found

theorem Keyed.steps (keyed : ledger.Keyed) (steps : Steps crypto ledger after) : after.Keyed := by
  induction steps with
  | refl => exact keyed
  | tail _ step ih => exact ih.step step

/-- Every session and every provisional entry stands for a handshake of its own. -/
structure Installed (ledger : Ledger) : Prop where
  keys : (ledger.sessions.map Session.keys ++ provisionalKeys ledger.provisional).Subperm
    (ledger.completed.map NoiseResult.keys)
  keyed : ∀ keyId entry, ledger.provisional.lookup keyId = some entry → entry.localKeyId = keyId

variable {session : Session} {counter : UInt64} {ref : SessionRef}

theorem reserveCounter_alike {after : Session} {outcome : Except SessionError UInt64}
    (reserved : session.reserveCounter = (outcome, after)) :
    after.keys = session.keys ∧ after.peer = session.peer ∧ after.meter = session.meter := by
  unfold Session.reserveCounter at reserved
  split_ifs at reserved
  · cases reserved
    exact ⟨rfl, rfl, rfl⟩
  · split at reserved <;> cases reserved <;> exact ⟨rfl, rfl, rfl⟩

theorem commit_alike {after : Session} {now : Instant} {outcome : Except SessionError Unit}
    (committed : session.commit counter now = (outcome, after)) :
    after.keys = session.keys ∧ after.peer = session.peer ∧ after.sendCounter = session.sendCounter ∧
      after.sent = session.sent ∧ after.replay = (session.replay.accept counter).2 := by
  unfold Session.commit at committed
  split at committed <;> rename_i accepted <;> cases committed <;> rw [accepted] <;>
    exact ⟨rfl, rfl, rfl, rfl, rfl⟩

/-- A session belongs to a peer, counts with `sent` and stops below kRejectAfterMessages. -/
structure Proper (session : Session) : Prop where
  peer : session.peer ≠ kNoPeer
  counter : session.sendCounter = ⟨session.sent, false⟩
  limit : session.sent ≤ kRejectAfterMessages

theorem proper_made {result : NoiseResult} (made : session.MadeOf result) : Proper session := by
  refine ⟨made.known, ?_, ?_⟩
  · rw [made.counter, made.sent]
  · rw [made.sent]
    decide

theorem Proper.alike {after : Session} (proper : Proper session) (peer : after.peer = session.peer)
    (counter : after.sendCounter = session.sendCounter) (sent : after.sent = session.sent) :
    Proper after :=
  ⟨peer ▸ proper.peer, by rw [counter, sent]; exact proper.counter, sent ▸ proper.limit⟩

theorem reserveCounter_proper {after : Session} (proper : Proper session)
    (reserved : session.reserveCounter = (.ok counter, after)) :
    counter = session.sent ∧ session.sent < kRejectAfterMessages ∧ after.sent = session.sent + 1 ∧
      session.sent < after.sent ∧ Proper after := by
  obtain ⟨known, counter_eq, limit⟩ := proper
  unfold Session.reserveCounter at reserved
  split_ifs at reserved with exhausted
  · cases reserved
  have room : session.sent < kRejectAfterMessages := UInt64.not_le.mp exhausted
  have limited : session.sent.toNat < 18446744073709543423 := UInt64.lt_iff_toNat_lt.mp room
  have below : session.sent ≠ 0xFFFFFFFFFFFFFFFF := by
    rintro full
    rw [full] at limited
    exact absurd limited (by decide)
  have grown : (session.sent + 1).toNat = session.sent.toNat + 1 := by
    rw [UInt64.toNat_add]
    exact Nat.mod_eq_of_lt (by change session.sent.toNat + 1 < 2 ^ 64; omega)
  simp only [counter_eq, PacketCounter.next, Bool.false_eq_true, if_false, below] at reserved
  cases reserved
  refine ⟨rfl, room, rfl, ?_, known, rfl, ?_⟩
  · rw [UInt64.lt_iff_toNat_lt, grown]
    omega
  · rw [UInt64.le_iff_toNat_le, grown]
    exact limited

/-- What a step can do to a session: it keeps its keys and its peer, offers its window at most one counter, and
counts on. -/
structure Turns (before after : Session) : Prop where
  keys : after.keys = before.keys
  peer : after.peer = before.peer
  replay : after.replay = before.replay ∨ ∃ counter, after.replay = (before.replay.accept counter).2
  proper : Proper before → Proper after ∧ before.sent ≤ after.sent
  metered : before.Metered → after.Metered

theorem Turns.refl (session : Session) : Turns session session :=
  ⟨rfl, rfl, .inl rfl, fun proper => ⟨proper, UInt64.le_refl _⟩, id⟩

theorem Turns.of_reserve {changed : Session} (reserved : session.reserveCounter = (.ok counter, changed)) :
    Turns session changed := by
  obtain ⟨keys, peer, meter⟩ := reserveCounter_alike reserved
  refine ⟨keys, peer, .inl (congrArg Prod.fst meter), fun proper => ?_, fun metered => metered.of_meter meter⟩
  obtain ⟨-, -, -, grown, proper⟩ := reserveCounter_proper proper reserved
  exact ⟨proper, UInt64.le_of_lt grown⟩

theorem Turns.of_commit {changed noted : Session} {now : Instant} {outcome : Except SessionError Unit}
    (committed : session.commit counter now = (outcome, changed)) (alike : noted.Alike changed)
    (metered : session.Metered → noted.Metered) : Turns session noted := by
  obtain ⟨keys, peer, sendCounter, sent, replay⟩ := commit_alike committed
  have same := alike.sent.trans sent
  refine ⟨alike.keys.trans keys, alike.peer.trans peer, .inr ⟨counter, alike.replay.trans replay⟩, fun proper => ?_,
    metered⟩
  exact ⟨proper.alike (alike.peer.trans peer) (alike.counter.trans sendCounter) same, UInt64.le_of_eq same.symm⟩

/-- What a step does to the sessions. -/
inductive Renews (sessions : List Session) : List Session → Prop
  | same : Renews sessions sessions
  | made (session : Session) (result : NoiseResult) : session.MadeOf result →
      (session.replay = {} ∨ ∃ counter, session.replay = (ReplayWindow.accept {} counter).2) →
      Renews sessions (sessions ++ [session])
  | turned (ref : SessionRef) (change : Session → Session) :
      (∀ session, sessions[ref]? = some session → Turns session (change session)) →
      Renews sessions (sessions.modify ref change)

theorem Renews.replaced {sessions : List Session} {changed : Session} (found : sessions[ref]? = some session)
    (turns : Turns session changed) : Renews sessions (sessions.modify ref fun _ => changed) := by
  refine .turned ref _ fun other present => ?_
  rw [found] at present
  cases present
  exact turns

theorem Step.renews (step : Step crypto ledger after) : Renews ledger.sessions after.sessions := by
  cases step with
  | complete | hold | release | spend | burn => exact .same
  | establish result session made blank => exact .made session result made (.inl blank)
  | promote keyId entry session delivery found made replay => exact .made session _ made (.inr ⟨_, replay⟩)
  | reserve ref session changed counter present reserved => exact .replaced present (.of_reserve reserved)
  | refuse ref session changed counter now error present committed =>
    exact .replaced present (.of_commit committed (.refl changed) fun metered => (metered.commit committed).1)
  | accept session changed noted now delivery present committed alike metered =>
    exact .replaced present (.of_commit committed alike metered)

/-- No session is lost. -/
theorem Renews.later {before after : List Session} (renews : Renews before after)
    (found : before[ref]? = some session) :
    ∃ later, after[ref]? = some later ∧ Turns session later := by
  cases renews with
  | same => exact ⟨session, found, .refl session⟩
  | made made =>
    have inside := (List.getElem?_eq_some_iff.mp found).1
    exact ⟨session, by rw [List.getElem?_append_left inside, found], .refl session⟩
  | turned place change turns =>
    rw [List.getElem?_modify, found]
    by_cases here : place = ref
    · exact ⟨change session, by simp [here], turns session (here ▸ found)⟩
    · exact ⟨session, by simp [here], .refl session⟩

theorem Steps.inside (steps : Steps crypto ledger after) (inside : ref < ledger.sessions.length) :
    ref < after.sessions.length := by
  induction steps with
  | refl => exact inside
  | tail _ step ih =>
    obtain ⟨later, stays, -⟩ := step.renews.later (List.getElem?_eq_getElem ih)
    exact (List.getElem?_eq_some_iff.mp stays).1

/-- A session was there before, or the step has made it. -/
theorem Renews.origin {before after : List Session} (renews : Renews before after)
    (found : after[ref]? = some session) :
    (∃ old, before[ref]? = some old ∧ Turns old session) ∨
      before.length ≤ ref ∧ (∃ result, session.MadeOf result) ∧
        (session.replay = {} ∨ ∃ counter, session.replay = (ReplayWindow.accept {} counter).2) := by
  by_cases inside : ref < before.length
  · obtain ⟨later, present, turns⟩ := renews.later (List.getElem?_eq_getElem inside)
    rw [found] at present
    cases present
    exact .inl ⟨_, List.getElem?_eq_getElem inside, turns⟩
  · have bound := (List.getElem?_eq_some_iff.mp found).1
    cases renews with
    | same => exact absurd bound inside
    | made made result madeOf window =>
      rw [List.getElem?_append_right (not_lt.mp inside)] at found
      rw [List.mem_singleton.mp (List.mem_of_getElem? found)]
      exact .inr ⟨not_lt.mp inside, ⟨result, madeOf⟩, window⟩
    | turned =>
      rw [List.length_modify] at bound
      exact absurd bound inside

theorem Renews.keys {before after : List Session} (renews : Renews before after)
    (same : after.length = before.length) : after.map Session.keys = before.map Session.keys := by
  cases renews with
  | same => rfl
  | made =>
    rw [List.length_append, List.length_singleton] at same
    omega
  | turned ref change turns => exact List.map_modify_same _ _ _ _ fun session found => (turns session found).keys

theorem Installed.step (installed : ledger.Installed) (step : Step crypto ledger after) :
    after.Installed := by
  have keys := installed.keys
  have renews := step.renews
  refine ⟨?_, Keyed.step installed.keyed step⟩
  cases step with
  | complete result =>
    refine keys.trans ?_
    rw [List.map_append]
    exact (List.sublist_append_left _ _).subperm
  | hold entry =>
    have kept := (List.kerase_sublist entry.localKeyId ledger.provisional.entries).map
      fun entry => entry.2.result.keys
    rw [List.map_append]
    exact List.subperm_insert keys kept
  | release kept sublist => exact ((sublist.map _).append_left _).subperm.trans keys
  | establish result session made blank =>
    rw [List.map_append, List.map_append, List.append_assoc, List.map_singleton, List.map_singleton, made.keys]
    exact List.subperm_insert keys (List.Sublist.refl _)
  | promote keyId entry session delivery found made =>
    have taken := (ledger.provisional.entries_perm_erase found).map fun entry => entry.2.result.keys
    refine List.Perm.subperm ?_ |>.trans keys
    rw [List.map_append, List.append_assoc, List.map_singleton, made.keys]
    exact taken.symm.append_left _
  | spend | burn => exact keys
  | reserve | refuse | accept =>
    rw [renews.keys (List.length_modify _ _ _)]
    exact keys

/-- What every ledger that a program makes satisfies of its windows and provisional entries. -/
structure Orderly (ledger : Ledger) : Prop where
  windows : ∀ (ref : SessionRef) (session : Session), ledger.sessions[ref]? = some session →
    session.replay.Blank
  keyed : ∀ keyId entry, ledger.provisional.lookup keyId = some entry → entry.localKeyId = keyId

theorem Orderly.step (orderly : ledger.Orderly) (step : Step crypto ledger after) : after.Orderly := by
  refine ⟨fun ref session found => ?_, Keyed.step orderly.keyed step⟩
  rcases step.renews.origin found with ⟨old, present, turns⟩ | ⟨-, -, blank | ⟨counter, accepted⟩⟩
  · rcases turns.replay with same | ⟨counter, next⟩
    · exact same ▸ orderly.windows ref old present
    · exact next ▸ ReplayWindow.accept_blank _ _
  · rw [blank]
    exact fun _ => rfl
  · exact accepted ▸ ReplayWindow.accept_blank _ _

theorem Orderly.steps (orderly : ledger.Orderly) (steps : Steps crypto ledger after) : after.Orderly := by
  induction steps with
  | refl => exact orderly
  | tail _ step ih => exact ih.step step

/-- A window never falls back. -/
theorem Orderly.rises (orderly : ledger.Orderly) (steps : Steps crypto ledger after)
    (found : ledger.sessions[ref]? = some session) :
    ∃ later, after.sessions[ref]? = some later ∧ session.replay.highest ≤ later.replay.highest := by
  induction steps with
  | refl => exact ⟨session, found, UInt64.le_refl _⟩
  | tail earlier step ih =>
    obtain ⟨middle, present, risen⟩ := ih
    obtain ⟨later, stays, turns⟩ := step.renews.later present
    refine ⟨later, stays, UInt64.le_trans risen ?_⟩
    rcases turns.replay with same | ⟨counter, next⟩
    · exact same ▸ UInt64.le_refl _
    · rw [next]
      exact ReplayWindow.highest_le_accept ((orderly.steps earlier).windows ref middle present) counter

/-- The counters used and those reserved for use, with the sessions they are of. -/
def uses (ledger : Ledger) : List (SessionRef × UInt64) := ledger.sealed.map Sealing.use ++ ledger.reserved

structure Spent (ledger : Ledger) : Prop where
  proper : ∀ session ∈ ledger.sessions, Proper session
  issued : ∀ use ∈ ledger.uses,
    ∃ session, ledger.sessions[use.1]? = some session ∧ use.2 < session.sent
  distinct : ledger.uses.Nodup
  keyed : ∀ sealing ∈ ledger.sealed, ∃ session, ledger.sessions[sealing.session]? = some session ∧
    session.sendKey = sealing.key

theorem Spent.step (spent : ledger.Spent) (step : Step crypto ledger after) : after.Spent := by
  have proper : ∀ session ∈ after.sessions, Proper session := by
    intro session member
    obtain ⟨ref, found⟩ := List.mem_iff_getElem?.mp member
    rcases step.renews.origin found with ⟨old, present, turns⟩ | ⟨-, ⟨result, made⟩, -⟩
    · exact (turns.proper (spent.proper old (List.mem_of_getElem? present))).1
    · exact proper_made made
  have issued : ∀ use ∈ ledger.uses, ∃ session, after.sessions[use.1]? = some session ∧ use.2 < session.sent := by
    intro use member
    obtain ⟨session, found, below⟩ := spent.issued use member
    obtain ⟨later, present, turns⟩ := step.renews.later found
    have proper := turns.proper (spent.proper session (List.mem_of_getElem? found))
    exact ⟨later, present, UInt64.lt_of_lt_of_le below proper.2⟩
  have keyed : ∀ sealing ∈ ledger.sealed, ∃ session, after.sessions[sealing.session]? = some session ∧
      session.sendKey = sealing.key := by
    intro sealing member
    obtain ⟨session, found, key⟩ := spent.keyed sealing member
    obtain ⟨later, present, turns⟩ := step.renews.later found
    exact ⟨later, present, (congrArg Prod.fst turns.keys).trans key⟩
  cases step with
  | complete | hold | release | establish | promote | refuse | accept =>
    exact ⟨proper, issued, spent.distinct, keyed⟩
  | reserve ref session changed counter present reserved =>
    obtain ⟨same, -, -, grown, -⟩ :=
      reserveCounter_proper (spent.proper session (List.mem_of_getElem? present)) reserved
    have extended : uses { ledger with
        sessions := ledger.sessions.modify ref fun _ => changed
        reserved := ledger.reserved ++ [(ref, counter)] } = ledger.uses ++ [(ref, counter)] :=
      (List.append_assoc _ _ _).symm
    refine ⟨proper, ?_, ?_, keyed⟩
    · rw [extended, List.forall_mem_append, List.forall_mem_singleton]
      exact ⟨issued, changed, by simp [present], same ▸ grown⟩
    · -- what the session issued before is below its counter
      rw [extended, List.nodup_append]
      refine ⟨spent.distinct, List.nodup_singleton _, fun use member other single clash => ?_⟩
      rw [List.mem_singleton.mp single] at clash
      obtain ⟨owner, found, below⟩ := spent.issued use member
      rw [clash, present] at found
      cases found
      rw [clash, same] at below
      exact absurd below (UInt64.lt_irrefl _)
  | spend ref session counter rest reserved present =>
    have moved : ledger.uses.Perm (uses { ledger with
        reserved := rest
        sealed := ledger.sealed ++ [⟨ref, session.sendKey, counter⟩] }) := by
      rw [uses, uses, List.map_append, List.append_assoc]
      exact reserved.append_left _
    refine ⟨proper, fun use member => issued use (moved.mem_iff.mpr member),
      moved.nodup_iff.mp spent.distinct, ?_⟩
    rw [List.forall_mem_append, List.forall_mem_singleton]
    exact ⟨keyed, session, present, rfl⟩
  | burn reservation rest reserved =>
    have moved := reserved.append_left (ledger.sealed.map Sealing.use)
    have kept : (uses { ledger with reserved := rest }).Sublist
        (ledger.sealed.map Sealing.use ++ reservation :: rest) :=
      (List.sublist_cons_self _ _).append_left _
    exact ⟨proper, fun use member => issued use (moved.mem_iff.mpr (kept.subset member)),
      (moved.nodup_iff.mp spent.distinct).sublist kept, keyed⟩

open ReplayWindow in
theorem holds_accept {window : ReplayWindow} {history : List UInt64} (holds : Holds window history)
    (counter : UInt64) : ∃ grown, Holds (window.accept counter).2 grown ∧ history ⊆ grown ∧
      ((window.accept counter).1 = .accepted → counter ∉ history ∧ counter ∈ grown) := by
  have received : Holds (window.accept counter).2
      (if (window.accept counter).1 = .accepted then counter :: history else history) :=
    holds_receive holds counter
  by_cases taken : (window.accept counter).1 = .accepted
  · rw [if_pos taken] at received
    exact ⟨counter :: history, received, List.subset_cons_self _ _,
      fun _ => ⟨((accept_accepted_iff holds counter).mp taken).1, List.mem_cons_self⟩⟩
  · rw [if_neg taken] at received
    exact ⟨history, received, List.Subset.refl _, fun accepted => absurd accepted taken⟩

theorem commit_accepted {after : Session} {now : Instant}
    (committed : session.commit counter now = (.ok (), after)) :
    (session.replay.accept counter).1 = .accepted := by
  unfold Session.commit at committed
  split at committed <;> rename_i verdict <;> cases committed
  rw [verdict]

/-- The replay window of a session knows every counter the session delivered. -/
structure Delivered (crypto : Crypto) (ledger : Ledger) : Prop where
  distinct : (ledger.deliveries.map Delivery.use).Nodup
  recorded : ∀ ref session, ledger.sessions[ref]? = some session →
    ∃ history, ReplayWindow.Holds session.replay history ∧
      ∀ delivery ∈ ledger.deliveries, delivery.session = ref → delivery.counter ∈ history
  opened : ∀ delivery ∈ ledger.deliveries, ∃ session, ledger.sessions[delivery.session]? = some session ∧
    session.receiveKey = delivery.key ∧ session.peer = delivery.peer
  genuine : ∀ delivery ∈ ledger.deliveries, delivery.Genuine crypto

theorem Delivered.inside {ledger : Ledger} (delivered : ledger.Delivered crypto) {delivery : Delivery}
    (member : delivery ∈ ledger.deliveries) : delivery.session < ledger.sessions.length := by
  obtain ⟨session, found, -⟩ := delivered.opened delivery member
  exact (List.getElem?_eq_some_iff.mp found).1

theorem Delivered.step (delivered : ledger.Delivered crypto) (step : Step crypto ledger after) :
    after.Delivered crypto := by
  have opened : ∀ delivery ∈ ledger.deliveries, ∃ session,
      after.sessions[delivery.session]? = some session ∧ session.receiveKey = delivery.key ∧
        session.peer = delivery.peer := by
    intro delivery member
    obtain ⟨session, found, key, peer⟩ := delivered.opened delivery member
    obtain ⟨later, present, turns⟩ := step.renews.later found
    exact ⟨later, present, (congrArg Prod.snd turns.keys).trans key, turns.peer.trans peer⟩
  -- a session that the step has not delivered for
  have recorded (ref : SessionRef) (session : Session) (found : after.sessions[ref]? = some session) :
      ∃ history, ReplayWindow.Holds session.replay history ∧
        ∀ delivery ∈ ledger.deliveries, delivery.session = ref → delivery.counter ∈ history := by
    rcases step.renews.origin found with ⟨old, present, turns⟩ | ⟨outside, -, window⟩
    · obtain ⟨history, holds, known⟩ := delivered.recorded ref old present
      rcases turns.replay with same | ⟨counter, next⟩
      · exact ⟨history, same ▸ holds, known⟩
      · obtain ⟨grown, holds, larger, -⟩ := holds_accept holds counter
        exact ⟨grown, next ▸ holds, fun delivery member same => larger (known delivery member same)⟩
    · obtain ⟨history, holds⟩ : ∃ history, ReplayWindow.Holds session.replay history := by
        rcases window with blank | ⟨counter, accepted⟩
        · exact ⟨[], blank ▸ ReplayWindow.holds_fresh⟩
        · obtain ⟨history, holds, -⟩ := holds_accept ReplayWindow.holds_fresh counter
          exact ⟨history, accepted ▸ holds⟩
      exact ⟨history, holds, fun delivery member same => absurd (same ▸ delivered.inside member)
        (not_lt.mpr outside)⟩
  -- one more delivery, of a session whose window had not seen its counter
  have delivers {delivery : Delivery} {session : Session}
      (present : after.sessions[delivery.session]? = some session)
      (key : session.receiveKey = delivery.key) (peer : session.peer = delivery.peer)
      (genuine : delivery.Genuine crypto) {history : List UInt64} (holds : ReplayWindow.Holds session.replay history)
      (inside : delivery.counter ∈ history)
      (known : ∀ earlier ∈ ledger.deliveries, earlier.session = delivery.session → earlier.counter ∈ history ∧
        earlier.counter ≠ delivery.counter) (same : after.deliveries = ledger.deliveries ++ [delivery]) :
      after.Delivered crypto := by
    constructor
    case distinct =>
      rw [same, List.map_append, List.map_singleton, List.nodup_append]
      refine ⟨delivered.distinct, List.nodup_singleton _, fun use member other single clash => ?_⟩
      obtain ⟨earlier, past, rfl⟩ := List.mem_map.mp member
      rw [List.mem_singleton.mp single] at clash
      exact (known earlier past (congrArg Prod.fst clash)).2 (congrArg Prod.snd clash)
    case recorded =>
      intro ref other found
      simp only [same, List.forall_mem_append, List.forall_mem_singleton]
      by_cases here : delivery.session = ref
      · subst here
        rw [present] at found
        cases found
        exact ⟨history, holds, fun earlier member same => (known earlier member same).1, fun _ => inside⟩
      · obtain ⟨history, holds, known⟩ := recorded ref other found
        exact ⟨history, holds, known, fun there => absurd there here⟩
    case opened =>
      rw [same, List.forall_mem_append, List.forall_mem_singleton]
      exact ⟨opened, session, present, key, peer⟩
    case genuine =>
      rw [same, List.forall_mem_append, List.forall_mem_singleton]
      exact ⟨delivered.genuine, genuine⟩
  cases step with
  | complete | hold | release | spend | burn | establish | reserve | refuse =>
    exact ⟨delivered.distinct, recorded, opened, delivered.genuine⟩
  | promote keyId entry session delivery found made replay ref key peer genuine =>
    obtain ⟨history, holds, -, fresh⟩ := holds_accept ReplayWindow.holds_fresh delivery.counter
    refine delivers (by simp [ref]) key.symm peer.symm genuine (replay ▸ holds) (fresh rfl).2 ?_ rfl
    intro earlier member same
    exact absurd (same.trans ref) (Nat.ne_of_lt (delivered.inside member))
  | accept session changed noted now delivery present committed alike metered key peer genuine =>
    obtain ⟨history, holds, known⟩ := delivered.recorded delivery.session session present
    obtain ⟨grown, holds, larger, accepted⟩ := holds_accept holds delivery.counter
    obtain ⟨fresh, inside⟩ := accepted (commit_accepted committed)
    obtain ⟨keys, samePeer, -, -, replay⟩ := commit_alike committed
    have held : (ledger.sessions.modify delivery.session fun _ => noted)[delivery.session]? = some noted := by
      simp [present]
    refine delivers held ?_ ((alike.peer.trans samePeer).trans peer.symm) genuine
      ((alike.replay.trans replay) ▸ holds) inside ?_ rfl
    · exact (congrArg Prod.snd (alike.keys.trans keys)).trans key.symm
    · intro earlier member same
      have seen := known earlier member same
      exact ⟨larger seen, fun clash => fresh (clash ▸ seen)⟩

/-- The meters of all sessions are kept. -/
theorem metered_steps (metered : ∀ session ∈ ledger.sessions, session.Metered) (steps : Steps crypto ledger after) :
    ∀ session ∈ after.sessions, session.Metered := by
  induction steps with
  | refl => exact metered
  | tail _ step ih =>
    intro session member
    obtain ⟨ref, found⟩ := List.mem_iff_getElem?.mp member
    rcases step.renews.origin found with ⟨old, present, turns⟩ | ⟨-, ⟨result, made⟩, -⟩
    · exact turns.metered (ih old (List.mem_of_getElem? present))
    · exact made.metered

structure Sound (crypto : Crypto) (ledger : Ledger) : Prop where
  installed : ledger.Installed
  spent : ledger.Spent
  delivered : ledger.Delivered crypto

theorem Sound.step (sound : ledger.Sound crypto) (step : Step crypto ledger after) :
    after.Sound crypto where
  installed := sound.installed.step step
  spent := sound.spent.step step
  delivered := sound.delivered.step step

theorem Sound.steps (sound : ledger.Sound crypto) (steps : Steps crypto ledger after) :
    after.Sound crypto := by
  induction steps with
  | refl => exact sound
  | tail _ step ih => exact ih.step step

theorem sound_empty : Sound crypto ⟨[], ∅, [], [], [], []⟩ where
  installed := ⟨List.nil_subperm, fun _ _ found => by cases found⟩
  spent := ⟨by simp, by simp [uses], by simp [uses], by simp⟩
  delivered := ⟨by simp, by simp, by simp, by simp⟩

end Ledger

end Norr
