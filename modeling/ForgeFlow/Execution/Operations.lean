import ForgeFlow.Execution.Store

/-!
# What the engine does to a run

The parts of `engine.go` that work on the aggregate alone, and the operations the
engine performs on a run as one type, so that a history is a list of them. An
operation that reports an error leaves the run as it was, except that
`markNewReady` may have marked some tasks before it stopped.
-/

namespace ForgeFlow.Execution

open ForgeFlow.Base ForgeFlow.Workflow

def taskDefinitionsByID (definition : WorkflowDefinition) : KeyMap TaskID TaskDefinition :=
  KeyMap.ofList (definition.tasks.map fun task => (task.id, task))

/-- The entry, or the zero task definition a missing map key gives. -/
def requireDefinition (definitions : KeyMap TaskID TaskDefinition) (taskID : TaskID) :
    TaskDefinition :=
  (definitions.get? taskID).getD ⟨[], [], .nil, [], [], ⟨0, 0, 0⟩⟩

def sortTasks (tasks : List TaskDefinition) : List TaskDefinition :=
  tasks.insertionSort fun left right => left.id ≤ right.id

def completedTaskIDs (run : WorkflowRun) : KeyMap TaskID Unit :=
  KeyMap.ofList ((run.sortedTasks.filter fun task => task.status = .succeeded).map
    fun task => (task.taskID, ()))

def existingReadyTasks (run : WorkflowRun) (definition : WorkflowDefinition) :
    List TaskDefinition :=
  sortTasks ((run.sortedTasks.filter fun task => task.status = .ready).map
    fun task => requireDefinition (taskDefinitionsByID definition) task.taskID)

/-- The loop of `markNewReady`; the `i`-th transition reads the clock as `now i`. -/
def markReadyLoop (run : WorkflowRun) : List TaskDefinition → (Nat → Int) →
    WorkflowRun × Except RunError (List TaskDefinition)
  | [], _ => (run, .ok [])
  | task :: rest, now =>
    match run.taskStatus task.id with
    | .error e => (run, .error e)
    | .ok status =>
      if status ≠ .pending then markReadyLoop run rest now
      else match run.transitionTask task.id .ready [] none (now 0) with
        | .error e => (run, .error e)
        | .ok run =>
          let (run, ready) := markReadyLoop run rest fun i => now (i + 1)
          (run, ready.map (task :: ·))

def markNewReady (run : WorkflowRun) (definition : WorkflowDefinition)
    (completed : KeyMap TaskID Unit) (now : Nat → Int) :
    WorkflowRun × Except RunError (List TaskDefinition) :=
  match definition.readyTasks completed with
  | .error e => (run, .error (.invalidDefinition e))
  | .ok candidates => markReadyLoop run candidates now

/-- The status a recovered run has to finish with when the process stopped
between a task's end and the run's, and the cause to record. -/
def recoveredTerminalTaskState (run : WorkflowRun) : Option (WorkflowRunStatus × TaskError) :=
  match run.sortedTasks.find? fun task => task.status = .failed with
  | some task =>
    some (.failed,
      { text := ascii "recovered failed task " ++ quote task.taskID ++ ascii ": " ++ task.error })
  | none =>
    if run.sortedTasks.any fun task => task.status = .canceled then
      some (.canceled, { text := ascii "recovered an interrupted workflow cancellation" })
    else none

/-- Cancel what is unfinished and end the run, as `failRun`, `cancelRun` and
`Recover` do before they save. -/
def stopRun (run : WorkflowRun) (target : WorkflowRunStatus) (cause : Option TaskError)
    (now now' : Int) : WorkflowRun × Except RunError Unit :=
  let run := run.cancelUnfinished cause now
  match run.transitionWorkflow target now' with
  | .error e => (run, .error e)
  | .ok run => (run, .ok ())

inductive Operation where
  | startWorkflow (now : Int)
  | markNewReady (now : Nat → Int)
  | startTaskAttempt (taskID : TaskID) (workerID : WorkerID) (leaseDuration now : Int)
  | completeTaskAttempt (taskID : TaskID) (taskRunID : TaskRunID) (workerID : WorkerID)
      (attemptID : AttemptID) (output : GoString) (taskErr : Option TaskError) (now : Int)
  | recordWorkerHeartbeat (workerID : WorkerID) (leaseDuration now : Int)
  | recoverExpiredLeases (now : Int)
  | promoteDueRetries (now : Int)
  | stop (target : WorkflowRunStatus) (cause : Option TaskError) (now now' : Int)
  | succeed (now : Int)
  | persisted (version : Nat)
  | restore

namespace WorkflowRun

/-- The result of a fallible operation, or the run as it was. -/
def orElse (run : WorkflowRun) (result : Except RunError WorkflowRun) : WorkflowRun :=
  match result with
  | .ok run' => run'
  | .error _ => run

/-- One operation. Tasks are marked ready from the succeeded set; restoring takes
the run's own snapshot and its own definition. -/
def apply (run : WorkflowRun) : Operation → WorkflowRun
  | .startWorkflow now => run.orElse (run.transitionWorkflow .running now)
  | .markNewReady now => (Execution.markNewReady run run.definition (completedTaskIDs run) now).1
  | .startTaskAttempt taskID workerID leaseDuration now =>
    run.orElse ((run.startTaskAttempt taskID workerID leaseDuration now).map Prod.fst)
  | .completeTaskAttempt taskID taskRunID workerID attemptID output taskErr now =>
    run.orElse ((run.completeTaskAttempt taskID taskRunID workerID attemptID output taskErr
      now).map Prod.fst)
  | .recordWorkerHeartbeat workerID leaseDuration now =>
    run.orElse (run.recordWorkerHeartbeat workerID leaseDuration now)
  | .recoverExpiredLeases now => (run.recoverExpiredLeases now).1
  | .promoteDueRetries now => (run.promoteDueRetries now).1
  | .stop target cause now now' => (stopRun run target cause now now').1
  | .succeed now => run.orElse (run.transitionWorkflow .succeeded now)
  | .persisted version => run.setPersistedVersion version
  | .restore => run.orElse (restoreWorkflowRun run.snapshot run.definition)

/-- The attempts whose outcome the operation records: the one a completion
settles, or those whose leases are recovered. -/
def settles (run : WorkflowRun) : Operation → List AttemptID
  | .completeTaskAttempt taskID taskRunID workerID attemptID output taskErr now =>
    match run.completeTaskAttempt taskID taskRunID workerID attemptID output taskErr now with
    | .ok (_, .ignored) => []
    | .ok _ => [attemptID]
    | .error _ => []
  | .recoverExpiredLeases now => (run.recoverExpiredLeases now).2.map LeaseRecovery.attemptID
  | _ => []

def applyAll (run : WorkflowRun) (ops : List Operation) : WorkflowRun := ops.foldl apply run

/-- All attempts settled in the course of a history, in order. -/
def settledBy (run : WorkflowRun) : List Operation → List AttemptID
  | [] => []
  | op :: ops => run.settles op ++ (run.apply op).settledBy ops

end WorkflowRun

end ForgeFlow.Execution
