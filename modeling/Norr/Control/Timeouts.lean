import Norr.Control.Runs

/-! When a handshake timeout may remove a pending handshake.

A run is a list of calls. `expire` takes the due events off the wheel, and each `process` hands the
next of them to on_timers, at the time at which they expired. -/

namespace Norr

open Node Crypto

/-- `after` follows from `before` by cancelling and by scheduling on time. -/
def Node.Punctual (heap : HeapAlgorithms) (now : Instant) (before after : Node) : Prop :=
  TimerWheel.Reaches heap (OnTime now) before.wheel after.wheel

theorem Node.Step.punctual {heap : HeapAlgorithms} {now : Instant} {before after : Node}
    (step : Step heap now True before after) : Punctual heap now before after := by
  cases step with
  | timers wheel reaches => exact reaches.mono fun _ allowed => allowed.1
  | _ => exact .refl

theorem Node.Steps.punctual {heap : HeapAlgorithms} {now : Instant} {before after : Node}
    (steps : Steps heap now True before after) : Punctual heap now before after := by
  induction steps with
  | refl => exact .refl
  | tail _ step ih => exact TimerWheel.Reaches.trans ih step.punctual

structure Running where
  node : Node
  batch : List TimerEvent := []
  clock : Instant

inductive Call
  | addPeer (config : PeerConfig)
  | start (peer : PeerId) (draws : Draws) (now : Instant)
  | datagram (source : Endpoint) (bytes : Bytes) (draws : Draws) (now : Instant)
  | forget (peer : PeerId)
  | promote (view : PacketView) (datagram : Bytes) (room : ℕ) (source : Endpoint) (clock : Instant)
  | expire (now : Instant)
  | process (draws : Draws)
  | aside (action : Node.Call)

/-- Calls that have nothing to do with timers. -/
def Node.Call.aside : Node.Call → Bool
  | .takeExpiredKeepalives | .setUnderLoad _ | .removeSession _ | .expireRetired _ | .useSession .. => true
  | _ => false

theorem Node.call_aside (crypto : Crypto) (heap : HeapAlgorithms) (node : Node) {action : Call}
    (aside : action.aside = true) :
    (node.call crypto heap action).wheel = node.wheel ∧
      (node.call crypto heap action).plane.pending = node.plane.pending ∧
      (node.call crypto heap action).plane.provisional = node.plane.provisional := by
  cases action with
  | takeExpiredKeepalives | setUnderLoad | removeSession | expireRetired | useSession => exact ⟨rfl, rfl, rfl⟩
  | _ => cases aside

namespace Running

variable (crypto : Crypto) (heap : HeapAlgorithms)

/-- `none` for a call out of turn: in the middle of a batch, or before the last one. -/
def call (running : Running) : Call → Option Running
  | .process draws =>
    match running.batch with
    | [] => none
    | event :: rest =>
      some ⟨(running.node.onTimer crypto heap event draws running.clock).2, rest, running.clock⟩
  | .addPeer config =>
    if running.batch ≠ [] then none
    else some ⟨(running.node.addPeer config).2, [], running.clock⟩
  | .start peer draws now =>
    if running.batch ≠ [] ∨ now < running.clock then none
    else some ⟨(running.node.startHandshake crypto heap peer draws now).2, [], now⟩
  | .datagram source bytes draws now =>
    if running.batch ≠ [] ∨ now < running.clock then none
    else some ⟨(running.node.handleDatagram crypto heap source bytes draws now).2, [], now⟩
  | .forget peer =>
    if running.batch ≠ [] then none
    else some ⟨running.node.forgetPeer heap peer, [], running.clock⟩
  | .promote view datagram room source clock =>
    if running.batch ≠ [] then none
    else some ⟨(running.node.tryPromoteProvisional crypto heap view datagram room source clock).2, [],
      running.clock⟩
  | .expire now =>
    if running.batch ≠ [] ∨ now < running.clock then none
    else
      let (due, wheel) := running.node.wheel.expire heap now
      some ⟨{ running.node with wheel }, due, now⟩
  | .aside action =>
    if running.batch ≠ [] ∨ action.aside = false then none
    else some ⟨running.node.call crypto heap action, [], running.clock⟩

/-- A call out of turn changes nothing. -/
def perform (running : Running) (call : Call) : Running := (running.call crypto heap call).getD running

def run (running : Running) (calls : List Call) : Option Running := calls.foldlM (call crypto heap) running

/-- The call is a start_handshake of `peer` at `time` that succeeds. -/
def Starts (running : Running) (peer : PeerId) (time : Instant) : Call → Prop
  | .start subject draws now => running.batch = [] ∧ subject = peer ∧ now = time ∧
      ∃ outgoing after, running.node.startHandshake crypto heap peer draws now = (.ok outgoing, after)
  | .process draws => running.clock = time ∧
      (∃ due rest, running.batch = ⟨.rekey, peer, due⟩ :: rest) ∧
      ∃ outgoing after, running.node.startHandshake crypto heap peer draws time = (.ok outgoing, after)
  | _ => False

/-- The call removes the pending handshake of `peer` for a handshake timeout. -/
def TimesOut (running : Running) (peer : PeerId) : Call → Prop
  | .process _ => (∃ due rest, running.batch = ⟨.handshakeTimeout, peer, due⟩ :: rest) ∧
      peer ∈ running.node.plane.pending
  | _ => False

/-- A run in which `peer` keeps the entry it has: nobody starts a handshake with it again. -/
inductive Continues (peer : PeerId) : Running → Running → Prop
  | refl (running : Running) : Continues peer running running
  | step {first second third : Running} {call : Call} : Continues peer first second →
      (∀ time, ¬ second.Starts crypto heap peer time call) →
      second.call crypto heap call = some third → Continues peer first third

/-- No handshake timeout processed before `time + kHandshakeTimeout` removes the entry. -/
def Undisturbed (running : Running) (peer : PeerId) (time : Instant) : Prop :=
  ∀ reached call, Continues crypto heap peer running reached → reached.TimesOut peer call →
    time + kHandshakeTimeout ≤ reached.clock

/-- No handshake timeout of `peer` due before `time + kHandshakeTimeout` is left on the wheel or in
the batch. -/
def Clean (running : Running) (peer : PeerId) (time : Instant) : Prop :=
  ∀ event ∈ running.node.wheel.timers ++ running.batch, event.kind = .handshakeTimeout →
    event.subject = peer → time + kHandshakeTimeout ≤ event.due

variable {crypto heap}

structure Sound (running : Running) : Prop where
  heaped : IsHeap running.node.wheel.timers
  isDue : ∀ event ∈ running.batch, event.due ≤ running.clock

variable {running after : Running} {call : Call} {peer : PeerId} {time : Instant}

/-- What a call in its turn does. -/
inductive Called (crypto : Crypto) (heap : HeapAlgorithms) : Running → Call → Running → Prop
  | process {node event rest clock} (draws) : Called crypto heap ⟨node, event :: rest, clock⟩ (.process draws)
      ⟨(node.onTimer crypto heap event draws clock).2, rest, clock⟩
  | addPeer {node clock} (config) : Called crypto heap ⟨node, [], clock⟩ (.addPeer config)
      ⟨(node.addPeer config).2, [], clock⟩
  | start {node clock} (peer draws) {now} (later : clock ≤ now) :
      Called crypto heap ⟨node, [], clock⟩ (.start peer draws now)
        ⟨(node.startHandshake crypto heap peer draws now).2, [], now⟩
  | datagram {node clock} (source bytes draws) {now} (later : clock ≤ now) :
      Called crypto heap ⟨node, [], clock⟩ (.datagram source bytes draws now)
        ⟨(node.handleDatagram crypto heap source bytes draws now).2, [], now⟩
  | forget {node clock} (peer) : Called crypto heap ⟨node, [], clock⟩ (.forget peer)
      ⟨node.forgetPeer heap peer, [], clock⟩
  | promote {node clock} (view datagram room source time) :
      Called crypto heap ⟨node, [], clock⟩ (.promote view datagram room source time)
        ⟨(node.tryPromoteProvisional crypto heap view datagram room source time).2, [], clock⟩
  | expire {node : Node} {clock now} (later : clock ≤ now) : Called crypto heap ⟨node, [], clock⟩ (.expire now)
      ⟨{ node with wheel := (node.wheel.expire heap now).2 }, (node.wheel.expire heap now).1, now⟩
  | aside {node clock action} (allowed : action.aside = true) : Called crypto heap ⟨node, [], clock⟩ (.aside action)
      ⟨node.call crypto heap action, [], clock⟩

theorem call_spec (called : running.call crypto heap call = some after) : Called crypto heap running call after := by
  obtain ⟨node, batch, clock⟩ := running
  cases batch with
  | nil =>
    cases call with
    | process => cases called
    | _ =>
      simp only [Running.call] at called
      split_ifs at called with busy
      cases called
      constructor
      all_goals simpa using busy
  | cons event rest =>
    cases call with
    | process draws =>
      cases called
      exact .process draws
    | _ => simp [Running.call] at called

/-- Every call either works on the wheel punctually, or takes the due events off it. -/
theorem call_cases (called : running.call crypto heap call = some after) :
    running.clock ≤ after.clock ∧
      ((Punctual heap after.clock running.node after.node ∧
          ∀ event ∈ after.batch, event ∈ running.batch) ∨
        (after.batch, after.node.wheel) = running.node.wheel.expire heap after.clock) := by
  cases call_spec called with
  | process draws =>
    exact ⟨le_rfl, .inl ⟨(onTimer_ran rfl).steps.punctual, fun _ => List.mem_cons_of_mem _⟩⟩
  | addPeer config =>
    refine ⟨le_rfl, .inl ⟨?_, fun _ => id⟩⟩
    unfold addPeer
    split_ifs <;> exact .refl
  | start peer draws later => exact ⟨later, .inl ⟨(startHandshake_ran rfl).steps.punctual, fun _ => id⟩⟩
  | datagram source bytes draws later => exact ⟨later, .inl ⟨(handleDatagram_ran rfl).steps.punctual, fun _ => id⟩⟩
  | forget peer => exact ⟨le_rfl, .inl ⟨(retimed_forgetPeer _ peer).reaches, fun _ => id⟩⟩
  | promote view datagram room source time =>
    exact ⟨le_rfl, .inl ⟨(tryPromoteProvisional_steps rfl).punctual, fun _ => id⟩⟩
  | expire later => exact ⟨later, .inr rfl⟩
  | aside allowed =>
    refine ⟨le_rfl, .inl ⟨?_, fun _ => id⟩⟩
    rw [Punctual, (Node.call_aside crypto heap _ allowed).1]
    exact .refl

theorem sound_call (lawful : heap.Lawful) (sound : running.Sound)
    (called : running.call crypto heap call = some after) : after.Sound := by
  obtain ⟨later, ⟨punctual, left⟩ | expired⟩ := call_cases called
  · refine ⟨punctual.isHeap lawful sound.heaped, fun event member => ?_⟩
    exact (sound.isDue event (left event member)).trans later
  · have spec := TimerWheel.expire_spec lawful running.node.wheel after.clock sound.heaped
    rw [← expired] at spec
    exact ⟨spec.heaped, spec.isDue⟩

theorem Sound.perform (lawful : heap.Lawful) (sound : running.Sound) (call : Call) :
    (running.perform crypto heap call).Sound := by
  rw [Running.perform]
  cases called : running.call crypto heap call with
  | none => exact sound
  | some after => exact sound_call lawful sound called

theorem clean_call (lawful : heap.Lawful) (sound : running.Sound)
    (called : running.call crypto heap call = some after) (clean : running.Clean peer time)
    (since : time ≤ after.clock) : after.Clean peer time := by
  intro event member kind subject
  have before : event ∈ running.node.wheel.timers ++ running.batch →
      time + kHandshakeTimeout ≤ event.due := fun old => clean event old kind subject
  obtain ⟨-, ⟨punctual, left⟩ | expired⟩ := call_cases called
  · rcases List.mem_append.mp member with wheel | batch
    · rcases punctual.mem lawful wheel with old | onTime
      · exact before (List.mem_append_left _ old)
      · rw [onTime kind]
        exact Int.add_le_add_right since _
    · exact before (List.mem_append_right _ (left event batch))
  · have spec := TimerWheel.expire_spec lawful running.node.wheel after.clock sound.heaped
    rw [← expired] at spec
    rcases List.mem_append.mp member with wheel | batch
    · exact before (List.mem_append_left _ (spec.left event wheel))
    · exact before (List.mem_append_left _ (spec.taken event batch))

theorem run_sound (lawful : heap.Lawful) (calls : List Call) (sound : running.Sound)
    (ran : running.run crypto heap calls = some after) : after.Sound := by
  induction calls generalizing running with
  | nil =>
    cases ran
    exact sound
  | cons call calls ih =>
    simp only [run, List.foldlM_cons, Option.bind_eq_bind, Option.bind_eq_some_iff] at ran
    obtain ⟨next, called, rest⟩ := ran
    exact ih (sound_call lawful sound called) rest

theorem sound_create (localStatic : KeyPair) (origin : Instant) :
    Sound ⟨create crypto localStatic, [], origin⟩ :=
  ⟨fun _ inside => absurd inside (Nat.not_lt_zero _), by simp⟩

theorem starts_clock (starts : running.Starts crypto heap peer time call)
    (called : running.call crypto heap call = some after) : after.clock = time := by
  cases call_spec called with
  | start => exact starts.2.2.1
  | process => exact starts.1
  | _ => exact starts.elim

theorem continues_clean (lawful : heap.Lawful) {first last : Running}
    (continues : Continues crypto heap peer first last) (sound : first.Sound) (clean : first.Clean peer time)
    (since : time ≤ first.clock) : last.Sound ∧ last.Clean peer time ∧ time ≤ last.clock := by
  induction continues with
  | refl => exact ⟨sound, clean, since⟩
  | step _ _ called ih =>
    obtain ⟨sound, clean, since⟩ := ih
    have later := since.trans (call_cases called).1
    exact ⟨sound_call lawful sound called, clean_call lawful sound called clean later, later⟩

/-- A handshake that starts with no stale timeout of its peer around is not timed out early. -/
theorem start_undisturbed (lawful : heap.Lawful) (localStatic : KeyPair) (origin : Instant)
    (before : List Call) (running started : Running) (call : Call) (peer : PeerId) (time : Instant)
    (reached : run crypto heap ⟨create crypto localStatic, [], origin⟩ before = some running)
    (starts : running.Starts crypto heap peer time call)
    (called : running.call crypto heap call = some started) (clean : running.Clean peer time) :
    started.Undisturbed crypto heap peer time := by
  have sound := run_sound lawful before (sound_create localStatic origin) reached
  have clock := starts_clock starts called
  intro last final continues timesOut
  obtain ⟨sound, clean, -⟩ := continues_clean lawful continues (sound_call lawful sound called)
    (clean_call lawful sound called clean clock.ge) clock.ge
  cases final with
  | process draws =>
    obtain ⟨⟨due, rest, batch⟩, -⟩ := timesOut
    have member : (⟨.handshakeTimeout, peer, due⟩ : TimerEvent) ∈ last.batch := by
      rw [batch]
      exact List.mem_cons_self
    exact (clean _ (List.mem_append_right _ member) rfl rfl).trans (sound.isDue _ member)
  | _ => exact timesOut.elim

def plainStart : Running := ⟨Node.create Crypto.plain (Crypto.plainPair 1), [], 0⟩

/-- The peer never answers: one retry, then the timeout of the first attempt. -/
def unanswered : List Call :=
  [.addPeer plainPeer, .start 7 plainDraws 0, .expire (milliseconds 500), .process plainDraws,
    .expire (seconds 5), .process plainDraws, .process plainDraws]

def redial : Call := .start 7 plainDraws (milliseconds 5100)

def outcome (calls : List Call) : Running :=
  (plainStart.run Crypto.plain sortingHeap calls).getD plainStart

theorem run_outcome {calls : List Call}
    (completes : (plainStart.run plain sortingHeap calls).isSome = true) :
    plainStart.run plain sortingHeap calls = some (outcome calls) := by
  obtain ⟨running, ran⟩ := Option.isSome_iff_exists.mp completes
  rw [outcome, ran, Option.getD_some]

theorem call_outcome {calls : List Call}
    (completes : (plainStart.run plain sortingHeap (calls ++ [call])).isSome = true) :
    (outcome calls).call plain sortingHeap call = some (outcome (calls ++ [call])) := by
  have whole := run_outcome completes
  rw [run, List.foldlM_append] at whole
  simp only [Option.bind_eq_bind, Option.bind_eq_some_iff, List.foldlM_cons, List.foldlM_nil,
    Option.pure_def, Option.some.injEq, exists_eq_right] at whole
  obtain ⟨running, ran, called⟩ := whole
  rw [← run] at ran
  rw [outcome, ran, Option.getD_some]
  exact called

theorem starts_of_isOk {draws : Draws} {now : Instant} (idle : running.batch = [])
    (succeeds : (running.node.startHandshake crypto heap peer draws now).1.isOk = true) :
    running.Starts crypto heap peer now (.start peer draws now) := by
  refine ⟨idle, rfl, rfl, ?_⟩
  rcases ran : running.node.startHandshake crypto heap peer draws now with ⟨error | outgoing, after⟩
  · rw [ran] at succeeds
    cases succeeds
  · exact ⟨outgoing, after, rfl⟩

theorem start_undisturbed_first : (outcome [.addPeer plainPeer, .start 7 plainDraws 0]).Undisturbed
    plain sortingHeap 7 0 := by
  apply start_undisturbed sortingHeap_lawful (plainPair 1) 0 [.addPeer plainPeer]
    (outcome [.addPeer plainPeer]) _ (.start 7 plainDraws 0) 7 0 (run_outcome (by decide +kernel))
  · exact starts_of_isOk (by decide +kernel) (by decide +kernel)
  · exact call_outcome (by decide +kernel)
  · have blank : (outcome [.addPeer plainPeer]).node.wheel.timers ++
        (outcome [.addPeer plainPeer]).batch = [] := by decide +kernel
    intro event member
    rw [blank] at member
    cases member

/-- The timeout of the retry, due after 5.5 s, removes the handshake started after 5.1 s. -/
theorem redial_timed_out : ∃ running started : Running,
    plainStart.run plain sortingHeap unanswered = some running ∧
      running.Starts plain sortingHeap 7 (milliseconds 5100) redial ∧
      running.call plain sortingHeap redial = some started ∧
      ¬ started.Undisturbed plain sortingHeap 7 (milliseconds 5100) := by
  refine ⟨outcome unanswered, outcome (unanswered ++ [redial]), run_outcome (by decide +kernel),
    starts_of_isOk (by decide +kernel) (by decide +kernel), call_outcome (by decide +kernel), ?_⟩
  intro undisturbed
  have expired : (outcome (unanswered ++ [redial])).call plain sortingHeap
      (.expire (milliseconds 5500)) =
        some (outcome (unanswered ++ [redial] ++ [.expire (milliseconds 5500)])) :=
    call_outcome (by decide +kernel)
  have late := undisturbed _ (.process plainDraws) (.step (.refl _) (fun _ => id) expired)
    ⟨⟨milliseconds 5500, [], by decide +kernel⟩, by decide +kernel⟩
  exact absurd late (by decide +kernel)

end Running

end Norr
