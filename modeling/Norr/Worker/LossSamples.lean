import Norr.Worker.Guarantees

/-! Runs of a node that reports the loss of its sessions now and then. -/

namespace Norr

namespace Worker

/-- What report_loss asks of a session. -/
def takeLossSample (worker : Worker) (ref : SessionRef) : Option Session.LossSample × Worker :=
  match worker.node.table.get ref with
  | none => (none, worker)
  | some session => (session.takeLossSample.1, worker.updateSession ref fun _ => session.takeLossSample.2)

inductive Reporting
  | call (action : Call)
  | takeLossSample (ref : SessionRef)

variable (crypto : Crypto) (heap : HeapAlgorithms)

def report (worker : Worker) : Reporting → Worker
  | .call action => worker.call crypto heap action
  | .takeLossSample ref => (worker.takeLossSample ref).2

def reportAll (worker : Worker) (actions : List Reporting) : Worker := actions.foldl (report crypto heap) worker

/-- Every session has its meter right, and every provisional entry its key id. -/
structure Metered (worker : Worker) : Prop where
  keyed : worker.ledger.Keyed
  sessions : ∀ session ∈ worker.ledger.sessions, session.Metered

variable {crypto : Crypto} {heap : HeapAlgorithms}

theorem Metered.report {worker : Worker} (metered : worker.Metered) (action : Reporting) :
    (worker.report crypto heap action).Metered := by
  cases action with
  | call action =>
    have steps :=
      (call_moves worker action : Moves crypto _ (worker.call crypto heap action).view).ledger metered.keyed
    exact ⟨metered.keyed.steps steps, Ledger.metered_steps metered.sessions steps⟩
  | takeLossSample ref =>
    simp only [Worker.report, Worker.takeLossSample]
    cases present : worker.node.table.get ref with
    | none => exact metered
    | some session =>
      refine ⟨metered.keyed, fun other member => ?_⟩
      have member : other ∈ worker.node.table.heap.modify ref fun _ => session.takeLossSample.2 := member
      rw [← List.set_eq_modify] at member
      rcases List.mem_or_eq_of_mem_set member with old | rfl
      · exact metered.sessions other old
      · exact (metered.sessions session (List.mem_of_getElem? present)).takeLossSample

theorem Metered.reportAll (actions : List Reporting) {worker : Worker} (metered : worker.Metered) :
    (worker.reportAll crypto heap actions).Metered := by
  induction actions generalizing worker with
  | nil => exact metered
  | cons action actions ih => exact ih (metered.report action)

/-- In every run: what is recovered was received, direct arrivals are counted without a wrap and are no more than
those received, and a sample's raw loss is at least its residual loss, both within 0 and 1. -/
theorem loss_never_underflows (localStatic : KeyPair) (actions : List Reporting) {ref : SessionRef}
    {session : Session}
    (found : ((create crypto localStatic).reportAll crypto heap actions).node.table.get ref = some session) :
    session.Accounted := by
  have start : (create crypto localStatic).Metered := ⟨nofun, nofun⟩
  exact ((start.reportAll actions).sessions session (List.mem_of_getElem? found)).accounted

/-- Node 1 sends 70 control packets more, of which node 2 recovers the last. -/
def manyCalls : List Call := sendCalls ++ [.sendControl 7 [0] 70 plainEnv.carrier]

def lossyRun : List Reporting :=
  receiveCalls.map .call ++ [.takeLossSample 0] ++
    ((sample 1 manyCalls).outbox.drop 72).map fun datagram =>
      .call (.forwardSealed {} datagram.payload true plainEnv)

def lossySession : Option Session :=
  ((create Crypto.plain (Crypto.plainPair 2)).reportAll Crypto.plain sortingHeap lossyRun).node.table.get 0

theorem lossy_sampled : (lossySession.bind fun session => session.takeLossSample.1) =
    some ⟨1, 69 / 70, 70⟩ := by
  decide +kernel

theorem loss_never_underflows_recovered :
    ∃ session sample, lossySession = some session ∧ session.takeLossSample.1 = some sample ∧
      sample.residual ≤ sample.raw := by
  obtain ⟨session, found, taken⟩ := Option.bind_eq_some_iff.mp lossy_sampled
  exact ⟨session, _, found, taken, ((loss_never_underflows _ lossyRun found).sample _ taken).2.1⟩

end Worker

end Norr
