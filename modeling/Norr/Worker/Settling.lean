import Norr.Worker.Steps

/-! settle_receive: the staged jobs, what settling them leaves alone, and that it does not look at what
has been staged since. -/

namespace Norr

open Fec

namespace Worker

variable {crypto : Crypto} {heap : HeapAlgorithms}

/-- The worker with other FEC decoders and other staged jobs. -/
def rebase (worker : Worker) (sources : List FecSource) (jobs : List ReceiveJob) : Worker :=
  { worker with fecSources := sources, receiveJobs := jobs }

section Commuting

variable (worker : Worker) (sources : List FecSource) (jobs : List ReceiveJob)

theorem sealWith_commutes (ref : SessionRef) (session : Session) (type : FrameType) (plaintext : Bytes)
    (room : ℕ) : (worker.rebase sources jobs).sealWith crypto ref session type plaintext room =
      ((worker.sealWith crypto ref session type plaintext room).1,
        (worker.sealWith crypto ref session type plaintext room).2.rebase sources jobs) := by
  simp only [sealWith]
  split <;> rfl

theorem sendControlCopies_commutes (carrier : Carrier) (ref : SessionRef) (payload : Bytes) (copies : ℕ) :
    sendControlCopies crypto carrier ref payload copies (worker.rebase sources jobs) =
      (sendControlCopies crypto carrier ref payload copies worker).rebase sources jobs := by
  induction copies generalizing worker with
  | zero => rfl
  | succ copies ih =>
    simp only [sendControlCopies, sealWith_commutes, show (worker.rebase sources jobs).node = worker.node from rfl]
    cases worker.node.table.get ref with
    | none => rfl
    | some session =>
      dsimp only
      cases session.endpoint with
      | none => rfl
      | some destination =>
        dsimp only
        rcases worker.sealWith crypto ref session .control payload
          (kPacketHeaderSize + 1 + kEchoTokenSize + kAeadTagSize) with ⟨error | wire, after⟩
        · rfl
        · exact ih (after.sendAll carrier [⟨destination, wire⟩]).2

theorem sendControl_commutes (peer : PeerId) (payload : Bytes) (copies : ℕ) (carrier : Carrier) :
    (worker.rebase sources jobs).sendControl crypto peer payload copies carrier =
      (worker.sendControl crypto peer payload copies carrier).rebase sources jobs := by
  simp only [sendControl, show (worker.rebase sources jobs).node = worker.node from rfl]
  cases worker.node.table.findByPeer peer with
  | none => rfl
  | some ref => exact sendControlCopies_commutes worker sources jobs carrier ref payload copies

theorem notePeerLoss_commutes (peer : PeerId) (env : Env) :
    (worker.rebase sources jobs).notePeerLoss peer env =
      (worker.notePeerLoss peer env).rebase sources jobs := by
  simp only [notePeerLoss, show (worker.rebase sources jobs).fecPeers = worker.fecPeers from rfl,
    show (worker.rebase sources jobs).fecMode = worker.fecMode from rfl]
  split_ifs
  · rfl
  · split
    · split <;> rfl
    · rfl

theorem handleControl_commutes (peer : PeerId) (payload : Bytes) (env : Env) :
    (worker.rebase sources jobs).handleControl crypto peer payload env =
      (worker.handleControl crypto peer payload env).rebase sources jobs := by
  unfold handleControl
  cases payload with
  | nil => rfl
  | cons kind token =>
    dsimp only
    split_ifs
    · rfl
    · unfold answerEcho
      split_ifs
      · rfl
      · exact sendControl_commutes worker sources jobs peer _ 1 env.carrier
    · exact notePeerLoss_commutes worker sources jobs peer env
    · rfl

theorem deliverOpened_commutes (ref : SessionRef) (session : Session) (packet : Bytes)
    (header : PacketHeader) (plaintext : Bytes) (env : Env) :
    (worker.rebase sources jobs).deliverOpened crypto ref session packet header plaintext env =
      ((worker.deliverOpened crypto ref session packet header plaintext env).1,
        (worker.deliverOpened crypto ref session packet header plaintext env).2.rebase sources jobs) := by
  simp only [deliverOpened, show (worker.rebase sources jobs).routes = worker.routes from rfl,
    show (worker.rebase sources jobs).offload = worker.offload from rfl]
  by_cases control : header.type = .control
  · simp only [if_pos control]
    let recorded : Worker := { worker with
      deliveries := worker.deliveries ++ [⟨ref, session.receiveKey, packet, header.counter, session.peer,
        header.type, plaintext, worker.routes, none⟩] }
    exact congrArg (Prod.mk DropReason.none)
      (handleControl_commutes recorded sources jobs session.peer plaintext env)
  · simp only [if_neg control]
    cases innerPacket worker.routes session.peer plaintext with
    | error reason => rfl
    | ok packet =>
      dsimp only
      split_ifs <;> rfl

theorem settleJob_commutes (delivered : ℕ) (job : ReceiveJob) :
    settleJob crypto (delivered, worker.rebase sources jobs) job =
      ((settleJob crypto (delivered, worker) job).1,
        (settleJob crypto (delivered, worker) job).2.rebase sources jobs) := by
  simp only [settleJob, show (worker.rebase sources jobs).node = worker.node from rfl]
  cases worker.node.table.get job.session with
  | none => rfl
  | some session =>
    dsimp only
    cases session.decrypt crypto job.view job.datagram kFrameBufferSize with
    | error => rfl
    | ok plaintext =>
      dsimp only
      rcases session.commit job.view.header.counter job.env.now with ⟨error | done, after⟩
      · rfl
      · dsimp only
        rw [show (worker.rebase sources jobs).updateSession job.session
            (fun _ => after.noteAuthenticatedEndpoint job.source) =
          (worker.updateSession job.session fun _ => after.noteAuthenticatedEndpoint job.source).rebase
            sources jobs from rfl, deliverOpened_commutes]

theorem settleJobs_commutes (staged : List ReceiveJob) (delivered : ℕ) :
    staged.foldl (settleJob crypto) (delivered, worker.rebase sources jobs) =
      ((staged.foldl (settleJob crypto) (delivered, worker)).1,
        (staged.foldl (settleJob crypto) (delivered, worker)).2.rebase sources jobs) := by
  induction staged generalizing worker delivered with
  | nil => rfl
  | cons job staged ih =>
    rw [List.foldl_cons, settleJob_commutes]
    exact ih _ _

end Commuting

/-- Neither the entries of the session table nor the control plane have changed. -/
structure Keeps (before after : Worker) : Prop where
  sessions : after.node.table.sessions = before.node.table.sessions
  plane : after.node.plane = before.node.plane
  heap : after.node.table.heap.length = before.node.table.heap.length
  jobs : after.receiveJobs = before.receiveJobs

namespace Keeps

theorem refl (worker : Worker) : worker.Keeps worker := ⟨rfl, rfl, rfl, rfl⟩

theorem trans {first second third : Worker} (early : first.Keeps second) (late : second.Keeps third) :
    first.Keeps third :=
  ⟨late.sessions.trans early.sessions, late.plane.trans early.plane, late.heap.trans early.heap,
    late.jobs.trans early.jobs⟩

/-- The two workers have one node and the same staged jobs. -/
theorem of_node {before after : Worker} (node : after.node = before.node)
    (jobs : after.receiveJobs = before.receiveJobs) : before.Keeps after := by
  refine ⟨?_, ?_, ?_, jobs⟩ <;> rw [node]

variable (worker : Worker)

theorem updateSession (ref : SessionRef) (change : Session → Session) :
    worker.Keeps (worker.updateSession ref change) := ⟨rfl, rfl, List.length_modify .., rfl⟩

theorem sealWith (ref : SessionRef) (session : Session) (type : FrameType) (plaintext : Bytes) (room : ℕ) :
    worker.Keeps (worker.sealWith crypto ref session type plaintext room).2 := by
  simp only [Worker.sealWith]
  split
  · exact updateSession worker ref _
  · exact (updateSession worker ref _).trans (of_node rfl rfl)

theorem sendControlCopies (carrier : Carrier) (ref : SessionRef) (payload : Bytes) (copies : ℕ) :
    worker.Keeps (Worker.sendControlCopies crypto carrier ref payload copies worker) := by
  induction copies generalizing worker with
  | zero => exact refl worker
  | succ copies ih =>
    simp only [Worker.sendControlCopies]
    split
    · exact refl worker
    · rename_i session _
      split
      · exact refl worker
      · have sealing : worker.Keeps (worker.sealWith crypto ref session .control payload
            (kPacketHeaderSize + 1 + kEchoTokenSize + kAeadTagSize)).2 := sealWith worker ..
        split
        · rename_i failed
          rw [failed] at sealing
          exact sealing
        · rename_i done
          rw [done] at sealing
          refine sealing.trans (Keeps.trans ?_ (ih _))
          exact of_node rfl rfl

theorem handleControl (peer : PeerId) (payload : Bytes) (env : Env) :
    worker.Keeps (worker.handleControl crypto peer payload env) := by
  unfold Worker.handleControl
  split
  · exact refl worker
  · split_ifs
    · exact refl worker
    · unfold answerEcho sendControl
      split_ifs
      · exact refl worker
      · split
        · exact refl worker
        · exact sendControlCopies worker env.carrier _ _ 1
    · unfold notePeerLoss
      split_ifs
      · exact refl worker
      · split
        · split
          · exact refl worker
          · exact of_node rfl rfl
        · exact refl worker
    · exact refl worker

theorem deliverOpened (ref : SessionRef) (session : Session) (packet : Bytes) (header : PacketHeader)
    (plaintext : Bytes) (env : Env) :
    worker.Keeps (worker.deliverOpened crypto ref session packet header plaintext env).2 := by
  unfold Worker.deliverOpened
  dsimp only
  split_ifs
  · refine Keeps.trans ?_ (handleControl _ _ _ _)
    exact of_node rfl rfl
  · split <;> exact of_node rfl rfl
  · split <;> exact of_node rfl rfl

theorem settleJob (delivered : ℕ) (job : ReceiveJob) :
    worker.Keeps (Worker.settleJob crypto (delivered, worker) job).2 := by
  simp only [Worker.settleJob]
  split
  · exact refl worker
  · split
    · exact refl worker
    · split
      · exact updateSession worker _ _
      · exact (updateSession worker _ _).trans (deliverOpened _ _ _ _ _ _ _)

theorem settleJobs (staged : List ReceiveJob) (delivered : ℕ) :
    worker.Keeps (staged.foldl (Worker.settleJob crypto) (delivered, worker)).2 := by
  induction staged generalizing worker delivered with
  | nil => exact refl worker
  | cons job staged ih => exact (settleJob worker delivered job).trans (ih _ _)

end Keeps

/-- The worker once its staged jobs are settled. -/
def settled (crypto : Crypto) (worker : Worker) : Worker := (worker.settleReceive crypto).2

section Settling

variable (worker : Worker)

theorem rebase_self : worker.rebase worker.fecSources worker.receiveJobs = worker := rfl

theorem rebase_rebase (first second : List FecSource) (staged jobs : List ReceiveJob) :
    (worker.rebase first staged).rebase second jobs = worker.rebase second jobs := rfl

theorem settled_eq : worker.settled crypto =
    (worker.receiveJobs.foldl (settleJob crypto) (0, worker)).2.rebase worker.fecSources [] := by
  simp only [settled, settleReceive]
  conv_lhs =>
    rw [← rebase_self worker, settleJobs_commutes]
  rfl

theorem settled_rebase (sources : List FecSource) :
    (worker.rebase sources worker.receiveJobs).settled crypto = (worker.settled crypto).rebase sources [] := by
  rw [settled_eq, settled_eq]
  simp only [show (worker.rebase sources worker.receiveJobs).receiveJobs = worker.receiveJobs from rfl,
    settleJobs_commutes]
  rfl

theorem settled_idle {worker : Worker} (idle : worker.receiveJobs = []) : worker.settled crypto = worker := by
  rw [settled_eq, idle, List.foldl_nil]
  rw [← idle]
  exact rebase_self worker

theorem settleJob_count (delivered : ℕ) (job : ReceiveJob) :
    (settleJob crypto (delivered, worker) job).2 = (settleJob crypto (0, worker) job).2 := by
  simp only [settleJob]
  split
  · rfl
  · split
    · rfl
    · split <;> rfl

theorem settled_stage (job : ReceiveJob) :
    { worker with receiveJobs := worker.receiveJobs ++ [job] }.settled crypto =
      (settleJob crypto (0, worker.settled crypto) job).2 := by
  rw [show { worker with receiveJobs := worker.receiveJobs ++ [job] } =
    worker.rebase worker.fecSources (worker.receiveJobs ++ [job]) from rfl, settled_eq, settled_eq,
    settleJob_commutes, settleJobs_commutes]
  simp only [show (worker.rebase worker.fecSources (worker.receiveJobs ++ [job])).receiveJobs =
    worker.receiveJobs ++ [job] from rfl, List.foldl_append, List.foldl_cons, List.foldl_nil, rebase_rebase]
  exact congrArg (rebase · worker.fecSources [])
    (settleJob_count (worker.receiveJobs.foldl (settleJob crypto) (0, worker)).2
      (worker.receiveJobs.foldl (settleJob crypto) (0, worker)).1 job)

/-- Everything but the jobs themselves. -/
theorem settled_keeps : { worker with receiveJobs := [] }.Keeps (worker.settled crypto) := by
  have keeps : worker.Keeps (worker.receiveJobs.foldl (settleJob crypto) (0, worker)).2 :=
    Keeps.settleJobs worker worker.receiveJobs 0
  rw [settled_eq]
  exact ⟨keeps.sessions, keeps.plane, keeps.heap, rfl⟩

theorem settled_steps (keyed : worker.ledger.Keyed) :
    Ledger.Steps crypto worker.ledger (worker.settled crypto).ledger := (settleReceive_moves worker).ledger keyed

theorem settled_receiveJobs : (worker.settled crypto).receiveJobs = [] := by
  rw [settled_eq]
  rfl

theorem settled_fecSources : (worker.settled crypto).fecSources = worker.fecSources := by
  rw [settled_eq]
  rfl

end Settling

end Worker

end Norr
