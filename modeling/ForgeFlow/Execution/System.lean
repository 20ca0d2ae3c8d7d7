import ForgeFlow.Execution.Scheduler

/-!
# Schedulers, workers, store and broker together

Everything that concerns one run: the snapshots its store has held, the broker's
queue, and any number of processes, each a scheduler with its workers and the
channels between them. A step is one call of a scheduler, one move of a worker, or
something that happens to a process or to the transport from outside.
-/

namespace ForgeFlow.Execution

open ForgeFlow.Base ForgeFlow.Workflow

/-- Where a worker is in `executeBrokerWorker`. -/
inductive WorkerPhase where
  | starting
  | receiving
  | claiming (delivery : Delivery)
  | waiting (claim : WorkerClaim)
  | answered (claim : WorkerClaim) (job : Option TaskJob)
  | executing (claim : WorkerClaim) (job : TaskJob)
  | reporting (result : BrokerTaskResult)
  | disappeared
  | failing (err : GoString)
  | exited
  deriving DecidableEq

structure Worker where
  slot : Nat
  phase : WorkerPhase := .starting
  canceled : Bool := false
  claims : Nat := 0

/-- A call of `Execute` or `Recover`: its thread, its context, its workers and the
channels they send on. -/
structure Process where
  config : EngineConfig
  thread : Thread EngineCall EngineResult Scheduler RunOutcome
  crashed : Bool := false
  canceled : Bool := false
  workersCanceled : Bool := false
  workers : KeyMap WorkerID Worker := ∅
  claimEvents : List WorkerClaim := []
  heartbeatEvents : List WorkerID := []
  lostEvents : List (WorkerID × Nat) := []
  brokerErrors : List (WorkerID × Nat × GoString) := []
  resultEvents : List BrokerTaskResult := []

/-- What a scheduler did that others can see. -/
inductive Observation where
  | published (pid : Nat) (message : TaskMessage)
  | handed (pid : Nat) (claim : WorkerClaim) (job : TaskJob)
  deriving DecidableEq

structure World where
  runID : RunID
  /-- The store checks snapshots before it takes them. -/
  validating : Bool
  workflows : KeyMap WorkflowID WorkflowDefinition := ∅
  /-- All snapshots stored for the run, the last one first. -/
  history : List WorkflowRunSnapshot := []
  broker : MemoryBroker := {}
  processes : KeyMap Nat Process := ∅
  log : List Observation := []

/-! ## The store -/

namespace World

def saveWorkflow (world : World) (definition : WorkflowDefinition) :
    Except GoString (Unit × World) :=
  match world.workflows.get? definition.id with
  | some existing =>
    if existing = definition then .ok ((), world)
    else .error (describe [("workflow definition ", definition.id)]
      " already exists with different content")
  | none =>
    .ok ((), { world with workflows := world.workflows.insert definition.id definition })

def checkSnapshot (world : World) (label : String) (snapshot : WorkflowRunSnapshot) :
    Except GoString Unit :=
  if world.validating then snapshot.validate.mapError fun e => ascii label ++ e.text else .ok ()

def createRun (world : World) (snapshot : WorkflowRunSnapshot) :
    Except GoString (WorkflowRunSnapshot × World) :=
  (world.checkSnapshot "create workflow run: " snapshot).bind fun _ =>
  (firstError [
    (!world.history.isEmpty, describe [("workflow run ", snapshot.id)] " already exists"),
    (snapshot.version ≠ 0,
      describe [("create workflow run ", snapshot.id)] ": initial version must be zero")]).bind fun _ =>
  let stored := { snapshot with version := snapshot.version + 1 }
  .ok (stored, { world with history := [stored] })

def saveRun (world : World) (snapshot : WorkflowRunSnapshot) :
    Except GoString (WorkflowRunSnapshot × World) :=
  (world.checkSnapshot "save workflow run: " snapshot).bind fun _ =>
  match world.history with
  | [] => .error (runNotFoundError snapshot.id)
  | current :: _ =>
    if snapshot.version ≠ current.version then
      .error (describe [("workflow run ", snapshot.id)] " version conflict: expected " ++
        formatNat snapshot.version ++ ascii ", actual " ++ formatNat current.version)
    else
      let stored := { snapshot with version := snapshot.version + 1 }
      .ok (stored, { world with history := stored :: world.history })

/-- A context that is done makes a read fail before it looks at the store. -/
def whileLive {α : Type} (process : Process) (world : World) (value : α) :
    Except GoString (α × World) :=
  if process.canceled then .error (ascii "context canceled") else .ok (value, world)

def publish (world : World) (pid : Nat) (process : Process) (message : TaskMessage) :
    Except GoString (Unit × World) :=
  if process.canceled then .error (ascii "context canceled")
  else (world.broker.publish message).map fun broker =>
    ((), { world with broker := broker, log := .published pid message :: world.log })

end World

/-! ## The calls of a scheduler -/

inductive EventSource where
  | claim
  | heartbeat
  | lost
  | brokerError
  | result
  | timer
  | done
  deriving DecidableEq

/-- How a call comes out, as far as it is not determined: the clock's reading, the
channel `select` takes from, or an error, which a write may report although it
took effect. -/
inductive Choice where
  | go
  | clock (now : Int)
  | clocks (nows : Nat → Int)
  | take (source : EventSource)
  | fail (text : GoString) (applied : Bool)

/-- The outcome of a call to the store or to the broker. -/
def Choice.attempt {ε α : Type} (choice : Choice) (failure : GoString → ε) (world : World)
    (operation : Except ε (α × World)) : Option (Except ε α × World) :=
  match choice, operation with
  | .go, .ok (value, world') => some (.ok value, world')
  | .go, .error e => some (.error e, world)
  | .fail text true, .ok (_, world') => some (.error (failure text), world')
  | .fail text _, _ => some (.error (failure text), world)
  | _, _ => none

/-- The answer reaches a worker that still waits on the claim's own channel. -/
def Worker.answer (worker : Worker) (claim : WorkerClaim) (job : Option TaskJob) : Worker :=
  if worker.phase = .waiting claim then { worker with phase := .answered claim job } else worker

namespace Process

def mapWorker (process : Process) (workerID : WorkerID) (f : Worker → Worker) : Process :=
  match process.workers.get? workerID with
  | none => process
  | some worker => { process with workers := process.workers.insert workerID (f worker) }

/-- The event `select` takes from the channel, with the rest left in it. -/
def take (process : Process) (armed : Bool) : EventSource → Option (SchedulerEvent × Process)
  | .claim =>
    match process.claimEvents with
    | [] => none
    | claim :: rest => some (.claim claim, { process with claimEvents := rest })
  | .heartbeat =>
    match process.heartbeatEvents with
    | [] => none
    | workerID :: rest => some (.heartbeat workerID, { process with heartbeatEvents := rest })
  | .lost =>
    match process.lostEvents with
    | [] => none
    | (workerID, slot) :: rest => some (.lost workerID slot, { process with lostEvents := rest })
  | .brokerError =>
    match process.brokerErrors with
    | [] => none
    | (workerID, slot, err) :: rest =>
      some (.brokerError workerID slot err, { process with brokerErrors := rest })
  | .result =>
    match process.resultEvents with
    | [] => none
    | result :: rest => some (.result result, { process with resultEvents := rest })
  | .timer => if armed then some (.timer, process) else none
  | .done => if process.canceled then some (.done (ascii "context canceled"), process) else none

def workersExited (process : Process) : Bool :=
  process.workers.values.all fun worker => worker.phase = .exited

end Process

/-- A call of process `pid` under a choice: its result, and what it leaves. -/
def answer (choice : Choice) (pid : Nat) (process : Process) (world : World) :
    (c : EngineCall) → Option (EngineResult c × Process × World)
  | .now =>
    match choice with
    | .clock now => some (now, process, world)
    | _ => none
  | .nows =>
    match choice with
    | .clocks nows => some (nows, process, world)
    | _ => none
  | .contextErr =>
    some (if process.canceled then some (ascii "context canceled") else none, process, world)
  | .saveWorkflow definition =>
    (choice.attempt id world (world.saveWorkflow definition)).map fun r => (r.1, process, r.2)
  | .createRun snapshot =>
    (choice.attempt id world (world.createRun snapshot)).map fun r => (r.1, process, r.2)
  | .saveRun snapshot =>
    (choice.attempt id world (world.saveRun snapshot)).map fun r => (r.1, process, r.2)
  | .loadRun _ =>
    (choice.attempt id world (world.whileLive process world.history.head?)).map
      fun r => (r.1, process, r.2)
  | .loadWorkflow workflowID =>
    (choice.attempt id world (world.whileLive process (world.workflows.get? workflowID))).map
      fun r => (r.1, process, r.2)
  | .publish message =>
    (choice.attempt id world (world.publish pid process message)).map fun r => (r.1, process, r.2)
  | .ack delivery =>
    (choice.attempt .failed world ((world.broker.ack delivery).map fun broker =>
      ((), { world with broker := broker }))).map fun r => (r.1, process, r.2)
  | .nack delivery =>
    (choice.attempt .failed world ((world.broker.nack delivery).map fun broker =>
      ((), { world with broker := broker }))).map fun r => (r.1, process, r.2)
  | .progress delivery =>
    (choice.attempt .failed world ((world.broker.progress delivery).map fun _ =>
      ((), world))).map fun r => (r.1, process, r.2)
  | .spawnWorker workerID slot =>
    some ((), { process with workers := process.workers.insert workerID { slot := slot } }, world)
  | .cancelWorker workerID =>
    some ((), process.mapWorker workerID fun worker => { worker with canceled := true }, world)
  | .cancelWorkers => some ((), { process with workersCanceled := true }, world)
  | .waitWorkers => if process.workersExited then some ((), process, world) else none
  | .respond claim job =>
    some ((), process.mapWorker claim.workerID fun worker => worker.answer claim job,
      match job with
      | some job => { world with log := .handed pid claim job :: world.log }
      | none => world)
  | .select armed =>
    match choice with
    | .take source => (process.take armed source).map fun r => (r.1, r.2, world)
    | _ => none

/-! ## The moves of a worker -/

inductive WorkerMove where
  | start
  | beat
  | receive
  | receiveFails (err : GoString)
  | sendClaim
  | takeAnswer
  | finish (output : GoString) (err : Option TaskError)
  | disappear
  | sendResult
  | sendLost
  | sendError
  | leave
  deriving DecidableEq

/-- `nackWorkerDelivery`: what the broker reports is not looked at. -/
def MemoryBroker.handBack (broker : MemoryBroker) (delivery : Delivery) : MemoryBroker :=
  match broker.nack delivery with
  | .ok broker => broker
  | .error _ => broker

/-- The delivery a worker gives back when its context is done; a handler that
runs, and an exited worker, do not notice. -/
def WorkerPhase.leaving : WorkerPhase → Option (Option Delivery)
  | .starting | .receiving | .disappeared | .failing _ => some none
  | .claiming delivery => some (some delivery)
  | .waiting claim | .answered claim _ => some (some claim.delivery)
  | .reporting result => some (some result.delivery)
  | .executing .. | .exited => none

namespace Process

/-- Room left in a channel; all of them hold twice as many events as there are workers. -/
def room {α : Type} (process : Process) (channel : List α) : Bool :=
  channel.length < process.config.workerCount * 2

def setPhase (process : Process) (workerID : WorkerID) (worker : Worker) (phase : WorkerPhase) :
    Process :=
  { process with workers := process.workers.insert workerID { worker with phase := phase } }

/-- One move of a worker: the process and the broker after it. -/
def moveWorker (process : Process) (broker : MemoryBroker) (workerID : WorkerID)
    (worker : Worker) : WorkerMove → Option (Process × MemoryBroker)
  | .start =>
    match worker.phase with
    | .starting =>
      if process.room process.heartbeatEvents then
        some ({ process.setPhase workerID worker .receiving with
          heartbeatEvents := process.heartbeatEvents ++ [workerID] }, broker)
      else none
    | _ => none
  | .beat =>
    match worker.phase with
    | .disappeared | .exited => none
    | _ =>
      if process.room process.heartbeatEvents then
        some ({ process with heartbeatEvents := process.heartbeatEvents ++ [workerID] }, broker)
      else none
  | .receive =>
    match worker.phase with
    | .receiving =>
      broker.receive.map fun r => (process.setPhase workerID worker (.claiming r.1), r.2)
    | _ => none
  | .receiveFails err =>
    match worker.phase with
    | .receiving => some (process.setPhase workerID worker (.failing err), broker)
    | _ => none
  | .sendClaim =>
    match worker.phase with
    | .claiming delivery =>
      if process.room process.claimEvents then
        let claim : WorkerClaim := ⟨workerID, worker.slot, delivery, worker.claims⟩
        some ({ process.setPhase workerID { worker with claims := worker.claims + 1 }
            (.waiting claim) with claimEvents := process.claimEvents ++ [claim] }, broker)
      else none
    | _ => none
  | .takeAnswer =>
    match worker.phase with
    | .answered _ none => some (process.setPhase workerID worker .receiving, broker)
    | .answered claim (some job) =>
      some (process.setPhase workerID worker (.executing claim job), broker)
    | _ => none
  | .finish output err =>
    match worker.phase with
    | .executing claim job =>
      some (process.setPhase workerID worker (.reporting (taskResult claim job output err)), broker)
    | _ => none
  | .disappear =>
    match worker.phase with
    | .executing claim _ =>
      some (process.setPhase workerID worker .disappeared, broker.handBack claim.delivery)
    | _ => none
  | .sendResult =>
    match worker.phase with
    | .reporting result =>
      if process.room process.resultEvents then
        some ({ process.setPhase workerID worker .receiving with
          resultEvents := process.resultEvents ++ [result] }, broker)
      else none
    | _ => none
  | .sendLost =>
    match worker.phase with
    | .disappeared =>
      if process.room process.lostEvents then
        some ({ process.setPhase workerID worker .exited with
          lostEvents := process.lostEvents ++ [(workerID, worker.slot)] }, broker)
      else none
    | _ => none
  | .sendError =>
    match worker.phase with
    | .failing err =>
      if process.room process.brokerErrors then
        some ({ process.setPhase workerID worker .exited with
          brokerErrors := process.brokerErrors ++ [(workerID, worker.slot, err)] }, broker)
      else none
    | _ => none
  | .leave =>
    if process.canceled || process.workersCanceled || worker.canceled then
      worker.phase.leaving.map fun delivery =>
        (process.setPhase workerID worker .exited,
          match delivery with
          | some delivery => broker.handBack delivery
          | none => broker)
    else none

end Process

/-! ## Steps of the world -/

inductive Start where
  | execute (definition : WorkflowDefinition)
  | recover
  deriving DecidableEq

def Start.thread (config : EngineConfig) (runID : RunID) :
    Start → Thread EngineCall EngineResult Scheduler RunOutcome
  | .execute definition => .running (Execution.execute config runID definition)
  | .recover => .running (recoverEngine config runID)

inductive Label where
  | launch (pid : Nat) (config : EngineConfig) (start : Start)
  | crash (pid : Nat)
  | cancel (pid : Nat)
  | scheduler (pid : Nat) (choice : Choice)
  | worker (pid : Nat) (workerID : WorkerID) (move : WorkerMove)
  /-- The transport redelivers, duplicates, loses or makes up messages. -/
  | transport (broker : MemoryBroker)

namespace World

def put (world : World) (pid : Nat) (process : Process) : World :=
  { world with processes := world.processes.insert pid process }

/-- A step of a process that has not crashed. -/
def stepProcess (world : World) (pid : Nat) (f : Process → Option World) : Option World :=
  match world.processes.get? pid with
  | none => none
  | some process => if process.crashed then none else f process

def step (world : World) : Label → Option World
  | .launch pid config start =>
    if world.processes.contains pid then none
    else some (world.put pid { config := config, thread := start.thread config world.runID })
  | .crash pid =>
    world.stepProcess pid fun process => some (world.put pid { process with crashed := true })
  | .cancel pid =>
    world.stepProcess pid fun process => some (world.put pid { process with canceled := true })
  | .scheduler pid choice =>
    world.stepProcess pid fun process =>
      (process.thread.advance (schedulerRound process.config) (process, world)
        (answer choice pid process world)).map fun r =>
          r.2.2.put pid { r.2.1 with thread := r.1 }
  | .worker pid workerID move =>
    world.stepProcess pid fun process =>
      match process.workers.get? workerID with
      | none => none
      | some worker =>
        (process.moveWorker world.broker workerID worker move).map fun r =>
          { world with broker := r.2 }.put pid r.1
  | .transport broker => some { world with broker := broker }

def run (world : World) : List Label → Option World
  | [] => some world
  | label :: rest => (world.step label).bind fun world => world.run rest

/-- The call process `pid` is about to make. -/
def pending (world : World) (pid : Nat) : Option EngineCall :=
  match world.processes.get? pid with
  | none => none
  | some process => if process.crashed then none else process.thread.pending

end World

end ForgeFlow.Execution
