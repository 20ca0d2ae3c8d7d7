import ForgeFlow.Execution.Run

/-!
# Attempts, leases, heartbeats and retries

The operations of `reliability.go`. A sweep over the task map changes each task
on its own, so it is a map over the tasks; what it reports comes out in the order
of the task IDs, as the source sorts it.
-/

namespace ForgeFlow.Execution

open ForgeFlow.Base ForgeFlow.Workflow

inductive CompletionOutcome where
  | ignored
  | succeeded
  | retryScheduled
  | failed
  deriving DecidableEq

structure LeaseRecovery where
  taskID : TaskID
  attemptID : AttemptID
  workerID : WorkerID
  outcome : CompletionOutcome
  deriving DecidableEq

/-- The checks `recordWorkerHeartbeat` and `startTaskAttempt` begin with. -/
def checkWorker (workerID : WorkerID) (leaseDuration : Int) : Except RunError Unit :=
  firstError [
    (!validIdentifier workerID,
      .invalidArgument (ascii "worker ID " ++ quote workerID ++ ascii " is invalid")),
    (leaseDuration ≤ 0, .invalidArgument (ascii "lease duration must be positive"))]

def leaseExpiredText (runID : RunID) (taskID : TaskID) (attemptID : AttemptID) : GoString :=
  ascii "lease expired for attempt " ++ quote attemptID ++ ascii " of task " ++ quote taskID ++
    ascii " in workflow run " ++ quote runID

namespace TaskRun

/-- Extend the lease of `workerID` on this task, if it is still good. -/
def renew (task : TaskRun) (workerID : WorkerID) (leaseDuration timestamp : Int) : TaskRun :=
  match task.lease with
  | none => task
  | some lease =>
    if task.status = .running ∧ lease.workerID = workerID ∧ timestamp < lease.expiresAt then
      { task with
        lease := some { lease with expiresAt := timestamp + leaseDuration }
        updatedAt := timestamp }
    else task

/-- The next attempt of the task, leased to `workerID`. -/
def startAttempt (task : TaskRun) (runID : RunID) (taskID : TaskID) (workerID : WorkerID)
    (leaseDuration timestamp : Int) : TaskRun :=
  let taskRunID := taskRunIDFor runID taskID
  let attempts := task.attemptCount + 1
  let attemptID := attemptIDFor taskRunID attempts
  { task with
    taskRunID := taskRunID
    attemptCount := attempts
    currentAttemptID := attemptID
    status := .running
    output := []
    error := []
    nextAttemptAt := 0
    startedAt := timestamp
    finishedAt := 0
    updatedAt := timestamp
    lease := some {
      workerID := workerID
      taskRunID := taskRunID
      attemptID := attemptID
      expiresAt := timestamp + leaseDuration } }

/-- The completion is for the attempt that runs now, from the worker leasing it. -/
def runsUnder (task : TaskRun) (taskRunID : TaskRunID) (workerID : WorkerID)
    (attemptID : AttemptID) : Bool :=
  match task.lease with
  | none => false
  | some lease =>
    task.status = .running && task.taskRunID = taskRunID && task.currentAttemptID = attemptID &&
      lease.attemptID = attemptID && lease.workerID = workerID

/-- Schedule another attempt when the policy still allows one; fail otherwise. -/
def retryOrFail (task : TaskRun) (policy : RetryPolicy) (retryable : Bool) (timestamp : Int) :
    TaskRun × CompletionOutcome :=
  if retryable = true ∧ task.attemptCount < policy.effectiveMaxAttempts then
    let delay := policy.retryDelay task.attemptCount
    if delay = 0 then ({ task with status := .ready }, .retryScheduled)
    else
      ({ task with status := .retryWaiting, nextAttemptAt := timestamp + delay }, .retryScheduled)
  else ({ task with status := .failed }, .failed)

/-- The task as a completion that is not ignored leaves it. -/
def complete (task : TaskRun) (policy : RetryPolicy) (output : GoString)
    (taskErr : Option TaskError) (timestamp : Int) : TaskRun × CompletionOutcome :=
  let task :=
    { task with
      lease := none, updatedAt := timestamp, finishedAt := timestamp, nextAttemptAt := 0 }
  match taskErr with
  | none => ({ task with status := .succeeded, output := output, error := [] }, .succeeded)
  | some e =>
    retryOrFail { task with output := [], error := e.text } policy e.retryable timestamp

/-- Running without a lease, or under one that has run out. -/
def leaseExpired (task : TaskRun) (timestamp : Int) : Bool :=
  task.status = .running &&
    match task.lease with
    | none => true
    | some lease => !(timestamp < lease.expiresAt)

/-- The task after its lease is recovered, and the report about it. -/
def recover (task : TaskRun) (runID : RunID) (taskID : TaskID) (policy : RetryPolicy)
    (timestamp : Int) : TaskRun × LeaseRecovery :=
  let workerID := (task.lease.map TaskLease.workerID).getD []
  -- a snapshot of an older release may hold an attempt without its ID
  let task :=
    if task.currentAttemptID = [] ∧ 0 < task.attemptCount then
      { task with
        taskRunID := taskRunIDFor runID taskID
        currentAttemptID := attemptIDFor (taskRunIDFor runID taskID) task.attemptCount }
    else task
  let attemptID := task.currentAttemptID
  let task :=
    { task with
      lease := none
      output := []
      error := leaseExpiredText runID taskID attemptID
      updatedAt := timestamp
      finishedAt := timestamp
      nextAttemptAt := 0 }
  let (task, outcome) := retryOrFail task policy true timestamp
  (task, ⟨taskID, attemptID, workerID, outcome⟩)

def retryDue (task : TaskRun) (timestamp : Int) : Bool :=
  task.status = .retryWaiting && !(timestamp < task.nextAttemptAt)

def promote (task : TaskRun) (timestamp : Int) : TaskRun :=
  { task with status := .ready, nextAttemptAt := 0, updatedAt := timestamp }

end TaskRun

namespace WorkflowRun

def retryPolicy (run : WorkflowRun) (taskID : TaskID) : RetryPolicy :=
  match run.definition.tasks.find? fun task => task.id = taskID with
  | some task => task.retry
  | none => ⟨0, 0, 0⟩

def recordWorkerHeartbeat (run : WorkflowRun) (workerID : WorkerID) (leaseDuration now : Int) :
    Except RunError WorkflowRun :=
  (checkWorker workerID leaseDuration).bind fun _ =>
    let timestamp := run.nextTimestamp now
    .ok { run with
      workers := run.workers.insert workerID ⟨workerID, timestamp⟩
      tasks := run.tasks.map fun _ task => task.renew workerID leaseDuration timestamp
      updatedAt := timestamp }

def startTaskAttempt (run : WorkflowRun) (taskID : TaskID) (workerID : WorkerID)
    (leaseDuration now : Int) : Except RunError (WorkflowRun × AttemptID) :=
  (checkWorker workerID leaseDuration).bind fun _ =>
    match run.tasks.get? taskID with
    | none => .error (.unknownTaskRun run.id taskID)
    | some task =>
      if task.status ≠ .ready then
        .error (.taskTransition run.id taskID task.status .running)
      else
        let timestamp := run.nextTimestamp now
        let task := task.startAttempt run.id taskID workerID leaseDuration timestamp
        .ok ({ run with
          tasks := run.tasks.insert taskID task
          workers := run.workers.insert workerID ⟨workerID, timestamp⟩
          updatedAt := timestamp }, task.currentAttemptID)

def completeTaskAttempt (run : WorkflowRun) (taskID : TaskID) (taskRunID : TaskRunID)
    (workerID : WorkerID) (attemptID : AttemptID) (output : GoString)
    (taskErr : Option TaskError) (now : Int) :
    Except RunError (WorkflowRun × CompletionOutcome) :=
  match run.tasks.get? taskID with
  | none => .error (.unknownTaskRun run.id taskID)
  | some task =>
    if !task.runsUnder taskRunID workerID attemptID then .ok (run, .ignored)
    else
      let timestamp := run.nextTimestamp now
      let (task, outcome) := task.complete (run.retryPolicy taskID) output taskErr timestamp
      .ok ({ run with tasks := run.tasks.insert taskID task, updatedAt := timestamp }, outcome)

def recoverExpiredLeases (run : WorkflowRun) (now : Int) : WorkflowRun × List LeaseRecovery :=
  let timestamp := run.nextTimestamp now
  let recoverOne := fun taskID (task : TaskRun) =>
    task.recover run.id taskID (run.retryPolicy taskID) timestamp
  let recoveries := run.tasks.entries.filterMap fun e =>
    if e.2.leaseExpired timestamp then some (recoverOne e.1 e.2).2 else none
  ({ run with
    tasks := run.tasks.map fun taskID task =>
      if task.leaseExpired timestamp then (recoverOne taskID task).1 else task
    updatedAt := if recoveries = [] then run.updatedAt else timestamp }, recoveries)

def promoteDueRetries (run : WorkflowRun) (now : Int) : WorkflowRun × List TaskID :=
  let timestamp := run.nextTimestamp now
  let promoted := run.tasks.entries.filterMap fun e =>
    if e.2.retryDue timestamp then some e.1 else none
  ({ run with
    tasks := run.tasks.map fun _ task =>
      if task.retryDue timestamp then task.promote timestamp else task
    updatedAt := if promoted = [] then run.updatedAt else timestamp }, promoted)

/-- The scan of `nextReliabilityDeadline` over the tasks left, with the earliest
deadline so far; a running task without a lease is overdue at once. -/
def deadlineScan (updatedAt : Int) : List TaskRun → Int → Int × Bool
  | [], deadline => (deadline, deadline ≠ 0)
  | task :: rest, deadline =>
    let earlier := fun candidate =>
      deadlineScan updatedAt rest (if deadline = 0 ∨ candidate < deadline then candidate else deadline)
    match task.status, task.lease with
    | .running, none => (updatedAt, true)
    | .running, some lease => earlier lease.expiresAt
    | .retryWaiting, _ => earlier task.nextAttemptAt
    | _, _ => deadlineScan updatedAt rest deadline

def nextReliabilityDeadline (run : WorkflowRun) : Int × Bool :=
  deadlineScan run.updatedAt run.tasks.values 0

end WorkflowRun

end ForgeFlow.Execution
