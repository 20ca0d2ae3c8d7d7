import ForgeFlow.Persistence.Replay

/-!
# The PostgreSQL store

Workflow runs in the tables of the initial migration, in a database encoded in UTF-8. A
transaction is atomic: it ends with the rows it has written, or with an error and the rows
as they were. The error of a violated constraint is the name of the constraint, that of a
value no column of the type can hold the name of the condition. Values are taken to be
short enough for a column and its indexes.
-/

namespace ForgeFlow.Persistence

open ForgeFlow.Base ForgeFlow.Workflow ForgeFlow.Execution ForgeFlow.Security

/-- A `timestamptz` counts microseconds. -/
def microseconds (time : Int) : Int := time / 1000 * 1000

theorem microseconds_idem (t : Int) : microseconds (microseconds t) = microseconds t := by
  unfold microseconds
  omega

def nullablePostgresTime (value : Int) : Option Int :=
  if value = 0 then none else some (microseconds value)

def violation (constraint : String) : StoreError := .message (ascii constraint)

/-- The strings a column of type `text` can hold. -/
def textValue (s : GoString) : Bool := validUTF8 s && !s.contains 0

/-- The parameters of a statement are checked before it looks at a row, those of type
`integer` by the driver. -/
def checkParameters (texts : List GoString) (integers : List Int) : Except StoreError Unit :=
  firstError [
    (!integers.all fun n => -2 ^ 31 ≤ n && n < 2 ^ 31, violation "numeric_value_out_of_range"),
    (!texts.all textValue, violation "character_not_in_repertoire")]

/-! ## Rows and their constraints -/

/-- A row of `workflow_runs`. -/
structure RunRow where
  workflowID : WorkflowID
  version : Nat
  status : WorkflowRunStatus
  createdAt : Int
  updatedAt : Int
  deriving DecidableEq

def RunRow.check (row : RunRow) : Except StoreError Unit :=
  firstError [
    (row.version < 1, violation "workflow_runs_version_positive"),
    (!row.status.valid, violation "workflow_runs_status_valid"),
    (row.updatedAt < row.createdAt, violation "workflow_runs_timestamps_ordered")]

/-- A row of `task_runs`. What `checkParameters` lets through fits its columns. -/
structure TaskRow where
  taskRunID : TaskRunID
  status : TaskRunStatus
  output : GoString
  errorMessage : GoString
  attemptCount : Int
  currentAttemptID : AttemptID
  nextAttemptAt : Option Int
  updatedAt : Int
  startedAt : Option Int
  finishedAt : Option Int
  deriving DecidableEq

def TaskRow.check (row : TaskRow) : Except StoreError Unit :=
  firstError [
    (row.taskRunID = [], violation "task_runs_id_not_empty"),
    (!row.status.valid, violation "task_runs_status_valid"),
    (row.attemptCount < 0, violation "task_runs_attempt_count_nonnegative"),
    (row.status = .running &&
      (row.attemptCount ≤ 0 || row.currentAttemptID = [] || row.startedAt = none),
      violation "task_runs_running_has_attempt"),
    (row.status = .retryWaiting &&
      (row.attemptCount ≤ 0 || row.currentAttemptID = [] || row.nextAttemptAt = none),
      violation "task_runs_retry_has_deadline"),
    (row.status.terminal && row.finishedAt = none, violation "task_runs_terminal_has_finish")]

/-- A row of `task_leases`. -/
structure LeaseRow where
  taskRunID : TaskRunID
  workerID : WorkerID
  attemptID : AttemptID
  expiresAt : Int
  deriving DecidableEq

/-- The tables, those of the children by run. Of the tables of the definitions what
`loadPostgresWorkflowTx` reads is kept. -/
structure Database where
  definitions : KeyMap WorkflowID WorkflowDefinition := ∅
  workflowRuns : KeyMap RunID RunRow := ∅
  taskRuns : KeyMap RunID (KeyMap TaskID TaskRow) := ∅
  workers : KeyMap RunID (KeyMap WorkerID Int) := ∅
  taskLeases : KeyMap RunID (KeyMap TaskID LeaseRow) := ∅
  deriving DecidableEq

namespace Database

def taskRunsOf (db : Database) (runID : RunID) : KeyMap TaskID TaskRow :=
  (db.taskRuns.get? runID).getD ∅

def workersOf (db : Database) (runID : RunID) : KeyMap WorkerID Int :=
  (db.workers.get? runID).getD ∅

def taskLeasesOf (db : Database) (runID : RunID) : KeyMap TaskID LeaseRow :=
  (db.taskLeases.get? runID).getD ∅

end Database

/-! ## Writing the rows of a run -/

def runLabel (before : String) (runID : RunID) : GoString :=
  ascii before ++ quote runID ++ ascii ": "

def childLabel (before : String) (childID : GoString) (between : String) (runID : RunID) :
    GoString :=
  ascii before ++ quote childID ++ ascii between ++ quote runID ++ ascii ": "

/-- The columns that a row of `task_runs` takes from a task run. -/
def taskRow (task : TaskRun) : TaskRow where
  taskRunID := task.taskRunID
  status := task.status
  output := task.output
  errorMessage := task.error
  attemptCount := task.attemptCount
  currentAttemptID := task.currentAttemptID
  nextAttemptAt := nullablePostgresTime task.nextAttemptAt
  updatedAt := microseconds task.updatedAt
  startedAt := nullablePostgresTime task.startedAt
  finishedAt := nullablePostgresTime task.finishedAt

/-- The parameters of type `text` that are taken from a task run. -/
def taskTexts (task : TaskRun) : List GoString :=
  [task.taskID, task.taskRunID, task.output, task.error, task.currentAttemptID]

def leaseRow (lease : TaskLease) : LeaseRow where
  taskRunID := lease.taskRunID
  workerID := lease.workerID
  attemptID := lease.attemptID
  expiresAt := microseconds lease.expiresAt

/-- The conditional `UPDATE` of the parent row, and the look at the row when no row
matched. -/
def updateWorkflowRun (db : Database) (snapshot : WorkflowRunSnapshot) :
    Except StoreError RunRow :=
  let label := runLabel "conditionally update workflow run " snapshot.id
  ((checkParameters [snapshot.id, snapshot.workflowID] []).mapError (.wrapped label)).bind fun _ =>
  match db.workflowRuns.get? snapshot.id with
  | none => .error (.runNotFound snapshot.id)
  | some row =>
    if row.workflowID = snapshot.workflowID ∧ row.version = snapshot.version then
      let row := { row with
        status := snapshot.status
        updatedAt := microseconds snapshot.updatedAt
        version := row.version + 1 }
      (row.check.mapError (.wrapped label)).map fun _ => row
    else .error (.runVersionConflict snapshot.id snapshot.version row.version)

/-- The `UPDATE` of one task run, which has to find its row. -/
def updateTaskRun (runID : RunID) (rows : KeyMap TaskID TaskRow) (task : TaskRun) :
    Except StoreError (KeyMap TaskID TaskRow) :=
  let label := childLabel "update task run " task.taskID " in workflow run " runID
  ((checkParameters (runID :: taskTexts task) [task.attemptCount]).mapError
    (.wrapped label)).bind fun _ =>
  match rows.get? task.taskID with
  | none => .error (.wrapped label (refuse "persisted task identity is missing"))
  | some row =>
    if row.taskRunID = task.taskRunID then
      -- the columns of the identity are not set
      let row := { taskRow task with taskRunID := row.taskRunID }
      (row.check.mapError (.wrapped label)).map fun _ => rows.insert task.taskID row
    else .error (.wrapped label (refuse "persisted task identity is missing"))

def insertTaskRun (runID : RunID) (definition : WorkflowDefinition)
    (rows : KeyMap TaskID TaskRow) (task : TaskRun) :
    Except StoreError (KeyMap TaskID TaskRow) :=
  ((checkParameters (runID :: definition.id :: taskTexts task) [task.attemptCount]).bind fun _ =>
  (taskRow task).check.bind fun _ => firstError [
    (rows.contains task.taskID, violation "task_runs_pkey"),
    (rows.values.any fun row => row.taskRunID = task.taskRunID,
      violation "task_runs_task_run_id_unique"),
    (!definition.tasks.any fun defined => defined.id = task.taskID,
      violation "task_runs_task_definition_fk")]).mapError
    (.wrapped (childLabel "insert task run " task.taskID " in workflow run " runID)) |>.map
    fun _ => rows.insert task.taskID (taskRow task)

def insertWorker (runID : RunID) (rows : KeyMap WorkerID Int) (worker : WorkerHeartbeat) :
    Except StoreError (KeyMap WorkerID Int) :=
  ((checkParameters [runID, worker.workerID] []).bind fun _ => firstError [
    (rows.contains worker.workerID, violation "workers_pkey"),
    (worker.workerID = [], violation "workers_id_not_empty")]).mapError
    (.wrapped (childLabel "insert worker " worker.workerID " for workflow run " runID)) |>.map
    fun _ => rows.insert worker.workerID (microseconds worker.lastHeartbeatAt)

/-- The `INSERT` of the lease of a task that has one, against the task runs and workers
of the run. -/
def insertLease (runID : RunID) (tasks : KeyMap TaskID TaskRow) (workers : KeyMap WorkerID Int)
    (rows : KeyMap TaskID LeaseRow) (task : TaskRun) :
    Except StoreError (KeyMap TaskID LeaseRow) :=
  match task.lease with
  | none => .ok rows
  | some lease =>
    ((checkParameters [runID, task.taskID, lease.taskRunID, lease.workerID, lease.attemptID]
      []).bind fun _ => firstError [
      (rows.contains task.taskID, violation "task_leases_pkey"),
      (rows.values.any fun row => row.attemptID = lease.attemptID,
        violation "task_leases_attempt_unique"),
      (rows.values.any fun row => row.workerID = lease.workerID,
        violation "task_leases_worker_unique"),
      (!tasks.contains task.taskID, violation "task_leases_task_fk"),
      (!tasks.values.any fun row => row.taskRunID = lease.taskRunID,
        violation "task_leases_task_run_fk"),
      (!workers.contains lease.workerID, violation "task_leases_worker_fk"),
      (lease.attemptID = [], violation "task_leases_attempt_not_empty")]).mapError
      (.wrapped (childLabel "insert lease for task " task.taskID " in workflow run " runID)) |>.map
      fun _ => rows.insert task.taskID (leaseRow lease)

/-- `insertPostgresWorkersAndLeases`, into the rows a run has left none of. -/
def insertWorkersAndLeases (snapshot : WorkflowRunSnapshot) (tasks : KeyMap TaskID TaskRow) :
    Except StoreError (KeyMap WorkerID Int × KeyMap TaskID LeaseRow) := do
  let workers ← snapshot.workers.foldlM (insertWorker snapshot.id) ∅
  let leases ← snapshot.tasks.foldlM (insertLease snapshot.id tasks workers) ∅
  return (workers, leases)

/-- What a transaction leaves of a run. -/
def Database.commit (db : Database) (runID : RunID) (row : RunRow)
    (tasks : KeyMap TaskID TaskRow) (workers : KeyMap WorkerID Int)
    (leases : KeyMap TaskID LeaseRow) : Database :=
  { db with
    workflowRuns := db.workflowRuns.insert runID row
    taskRuns := db.taskRuns.insert runID tasks
    workers := db.workers.insert runID workers
    taskLeases := db.taskLeases.insert runID leases }

/-! ## The calls of the store -/

namespace Database

def loadWorkflow (db : Database) (workflowID : WorkflowID) :
    Except StoreError (Option WorkflowDefinition) :=
  ((checkParameters [workflowID] []).mapError
    (.wrapped (runLabel "load workflow definition " workflowID))).bind fun _ =>
  match db.definitions.get? workflowID with
  | none => .ok none
  | some definition =>
    (definition.validate.mapError fun e =>
      .wrapped (runLabel "validate loaded workflow definition " workflowID)
        (.invalidDefinition e)).map fun _ => some definition

/-- The run of the snapshot, against the stored definition. -/
def restoreRun (db : Database) (snapshot : WorkflowRunSnapshot) :
    Except StoreError WorkflowRun := do
  let definition ← required (← db.loadWorkflow snapshot.workflowID)
    (.workflowNotFound snapshot.workflowID)
  (restoreWorkflowRun snapshot definition).mapError fun e =>
    .wrapped (ascii "validate workflow run against definition: ") (.invalidRun e)

def createRun (db : Database) (ctx : ContextState) (snapshot : WorkflowRunSnapshot) :
    Except StoreError (Database × WorkflowRunSnapshot) := do
  contextError ctx
  checkSnapshot "create workflow run: " snapshot
  firstError [(snapshot.version ≠ 0,
    .message (ascii "create workflow run " ++ quote snapshot.id ++
      ascii ": initial version must be zero"))]
  let run ← db.restoreRun snapshot
  let created := { run.snapshot with version := 1 }
  let label := runLabel "insert workflow run " created.id
  (checkParameters [created.id, created.workflowID] []).mapError (.wrapped label)
  firstError [(db.workflowRuns.contains created.id, .runAlreadyExists created.id)]
  let row : RunRow := ⟨created.workflowID, created.version, created.status,
    microseconds created.createdAt, microseconds created.updatedAt⟩
  row.check.mapError (.wrapped label)
  let tasks ← created.tasks.foldlM (insertTaskRun created.id run.definition)
    (db.taskRunsOf created.id)
  let (workers, leases) ← insertWorkersAndLeases created tasks
  return (db.commit created.id row tasks workers leases, created)

/-- Versions are stored as `bigint`. -/
def maxInt64 : Nat := 2 ^ 63 - 1

def saveRun (db : Database) (ctx : ContextState) (snapshot : WorkflowRunSnapshot) :
    Except StoreError (Database × WorkflowRunSnapshot) := do
  contextError ctx
  checkSnapshot "save workflow run: " snapshot
  firstError [(snapshot.version = 0 || maxInt64 ≤ snapshot.version,
    .message (ascii "save workflow run " ++ quote snapshot.id ++ ascii ": version " ++
      formatNat snapshot.version ++ ascii " is outside PostgreSQL bigint range"))]
  let run ← db.restoreRun snapshot
  let snapshot := run.snapshot
  let row ← updateWorkflowRun db snapshot
  let tasks ← snapshot.tasks.foldlM (updateTaskRun snapshot.id) (db.taskRunsOf snapshot.id)
  let (workers, leases) ← insertWorkersAndLeases snapshot tasks
  return (db.commit snapshot.id row tasks workers leases, { snapshot with version := row.version })

/-- A task run as it is scanned, with the lease that refers to it. -/
def scanTask (leases : KeyMap TaskID LeaseRow) (taskID : TaskID) (row : TaskRow) : TaskRun where
  taskID := taskID
  taskRunID := row.taskRunID
  status := row.status
  output := row.output
  error := row.errorMessage
  attemptCount := row.attemptCount
  currentAttemptID := row.currentAttemptID
  nextAttemptAt := row.nextAttemptAt.getD 0
  lease := (leases.get? taskID).map fun lease =>
    ⟨lease.workerID, lease.taskRunID, lease.attemptID, lease.expiresAt⟩
  updatedAt := row.updatedAt
  startedAt := row.startedAt.getD 0
  finishedAt := row.finishedAt.getD 0

/-- The rows are read in the order of their IDs. -/
def loadRun (db : Database) (ctx : ContextState) (runID : RunID) :
    Except StoreError (Option WorkflowRunSnapshot) := do
  contextError ctx
  (checkParameters [runID] []).mapError (.wrapped (runLabel "load workflow run " runID))
  match db.workflowRuns.get? runID with
  | none => return none
  | some row =>
    firstError [(row.version < 1,
      .message (runLabel "load workflow run " runID ++ ascii "invalid version " ++
        formatNat row.version))]
    let leases := db.taskLeasesOf runID
    let tasks := (db.taskRunsOf runID).map (scanTask leases)
    let workers := (db.workersOf runID).map WorkerHeartbeat.mk
    checkAll (fun taskID => firstError [(!tasks.contains taskID,
      .message (runLabel "load workflow run " runID ++ ascii "lease references missing task " ++
        quote taskID))]) leases.keys
    let snapshot : WorkflowRunSnapshot :=
      ⟨runID, row.workflowID, row.version, row.status, row.createdAt, row.updatedAt,
        tasks.values, workers.values⟩
    snapshot.validate.mapError fun e =>
      .wrapped (runLabel "validate loaded workflow run " runID) (.invalidRun e)
    return some snapshot

end Database

end ForgeFlow.Persistence
