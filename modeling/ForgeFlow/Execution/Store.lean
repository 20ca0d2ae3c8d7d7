import ForgeFlow.Execution.Reliability

/-!
# Snapshots: validation and restoring a run

`WorkflowRunSnapshot.validate` is the chain of checks of `store.go`, in its order
and with its messages. `ValidSnapshot` says what the chain accepts.
-/

namespace ForgeFlow.Execution

open ForgeFlow.Base ForgeFlow.Workflow

structure WorkflowRunSnapshot where
  id : RunID
  workflowID : WorkflowID
  version : Nat
  status : WorkflowRunStatus
  createdAt : Int
  updatedAt : Int
  tasks : List TaskRun
  workers : List WorkerHeartbeat
  deriving DecidableEq

def WorkflowRun.snapshot (run : WorkflowRun) : WorkflowRunSnapshot where
  id := run.id
  workflowID := run.definition.id
  version := run.version
  status := run.status
  createdAt := run.createdAt
  updatedAt := run.updatedAt
  tasks := run.sortedTasks
  workers := run.sortedWorkers

/-- The worker a task is leased to. -/
def TaskRun.leasedTo (task : TaskRun) : Option WorkerID := task.lease.map TaskLease.workerID

/-- What the loop over the task runs has met so far. -/
structure TaskScan where
  seen : KeyMap TaskID Unit
  leasedWorkers : KeyMap WorkerID Unit

def TaskScan.note (scan : TaskScan) (task : TaskRun) : TaskScan where
  seen := scan.seen.insert task.taskID ()
  leasedWorkers :=
    match task.lease with
    | none => scan.leasedWorkers
    | some lease => scan.leasedWorkers.insert lease.workerID ()

namespace WorkflowRunSnapshot

def invalid (snapshot : WorkflowRunSnapshot) (reason : GoString) : RunError :=
  .snapshotValidation snapshot.id reason

def checkHeader (snapshot : WorkflowRunSnapshot) : Except RunError Unit :=
  firstError [
    (!validIdentifier snapshot.id, snapshot.invalid (ascii "run ID is empty or invalid")),
    (!validIdentifier snapshot.workflowID,
      snapshot.invalid (ascii "workflow ID is empty or invalid")),
    (!snapshot.status.valid,
      snapshot.invalid (ascii "unknown workflow status " ++ quote snapshot.status.text)),
    (snapshot.createdAt = 0, snapshot.invalid (ascii "creation timestamp is missing")),
    (snapshot.updatedAt = 0 || snapshot.updatedAt < snapshot.createdAt,
      snapshot.invalid (ascii "update timestamp is missing or precedes creation")),
    (snapshot.tasks.isEmpty, snapshot.invalid (ascii "task runs are missing"))]

/-- The lease is not one a running task of this run can hold. -/
def badLease (snapshot : WorkflowRunSnapshot) (task : TaskRun) (lease : TaskLease) : Bool :=
  let expected := taskRunIDFor snapshot.id task.taskID
  task.status ≠ .running || !validIdentifier lease.workerID || task.taskRunID ≠ expected ||
    !validIdentifier lease.attemptID || lease.taskRunID ≠ expected ||
    lease.attemptID ≠ task.currentAttemptID || lease.expiresAt = 0

def checkLease (snapshot : WorkflowRunSnapshot) (scan : TaskScan) (task : TaskRun) :
    Except RunError Unit :=
  match task.lease with
  | none => .ok ()
  | some lease =>
    firstError [
      (snapshot.badLease task lease,
        snapshot.invalid (ascii "task " ++ quote task.taskID ++ ascii " has an invalid lease")),
      (scan.leasedWorkers.contains lease.workerID,
        snapshot.invalid (ascii "worker " ++ quote lease.workerID ++
          ascii " holds more than one active task lease"))]

def checkTaskRun (snapshot : WorkflowRunSnapshot) (scan : TaskScan) (task : TaskRun) :
    Except RunError Unit :=
  let expected := taskRunIDFor snapshot.id task.taskID
  let named := fun before after =>
    snapshot.invalid (ascii before ++ quote task.taskID ++ ascii after)
  (firstError [
    (!validIdentifier task.taskID,
      snapshot.invalid (ascii "task run has an empty or invalid task ID")),
    (scan.seen.contains task.taskID, named "duplicate task run " ""),
    (task.taskRunID ≠ [] && task.taskRunID ≠ expected,
      named "task " " has an invalid task-run ID"),
    (!task.status.valid,
      snapshot.invalid (ascii "task " ++ quote task.taskID ++ ascii " has unknown status " ++
        quote task.status.text)),
    (task.attemptCount < 0, named "task " " has a negative attempt count"),
    (task.attemptCount = 0 && task.currentAttemptID ≠ [],
      named "task " " has an attempt ID without an attempt"),
    (task.currentAttemptID ≠ [] && task.currentAttemptID ≠ attemptIDFor expected task.attemptCount,
      named "task " " has an invalid current attempt ID"),
    (task.updatedAt = 0 || task.updatedAt < snapshot.createdAt,
      named "task " " has an invalid update timestamp"),
    (task.status = .running && (task.attemptCount = 0 || task.startedAt = 0),
      named "running task " " has no recorded attempt"),
    ((task.status = .succeeded || task.status = .failed) &&
      (task.attemptCount = 0 || task.finishedAt = 0),
      named "completed task " " has no recorded attempt"),
    (task.status = .canceled && task.finishedAt = 0,
      named "canceled task " " has no finish timestamp"),
    (task.status = .retryWaiting && task.nextAttemptAt = 0,
      named "retry-waiting task " " has no retry deadline"),
    (task.status = .retryWaiting && (task.attemptCount = 0 || task.currentAttemptID = []),
      named "retry-waiting task " " has no completed attempt"),
    (task.status ≠ .retryWaiting && task.nextAttemptAt ≠ 0,
      named "task " " has a retry deadline outside retry-wait state")]).bind fun _ =>
    snapshot.checkLease scan task

def checkTaskRuns (snapshot : WorkflowRunSnapshot) :
    List TaskRun → TaskScan → Except RunError TaskScan
  | [], scan => .ok scan
  | task :: rest, scan =>
    (snapshot.checkTaskRun scan task).bind fun _ => snapshot.checkTaskRuns rest (scan.note task)

def checkWorkers (snapshot : WorkflowRunSnapshot) :
    List WorkerHeartbeat → KeyMap WorkerID Unit → Except RunError (KeyMap WorkerID Unit)
  | [], seen => .ok seen
  | worker :: rest, seen =>
    (firstError [
      (!validIdentifier worker.workerID || worker.lastHeartbeatAt = 0 ||
        worker.lastHeartbeatAt < snapshot.createdAt,
        snapshot.invalid (ascii "worker " ++ quote worker.workerID ++
          ascii " has invalid heartbeat state")),
      (seen.contains worker.workerID,
        snapshot.invalid (ascii "duplicate worker heartbeat " ++ quote worker.workerID))]).bind
      fun _ => snapshot.checkWorkers rest (seen.insert worker.workerID ())

/-- The source ranges over the leased workers in no fixed order; here the first
in the order of the IDs is reported. -/
def checkLeasedWorkers (snapshot : WorkflowRunSnapshot) (leased seen : KeyMap WorkerID Unit) :
    Except RunError Unit :=
  checkAll (fun workerID => firstError [
    (!seen.contains workerID,
      snapshot.invalid (ascii "lease references worker " ++ quote workerID ++
        ascii " without heartbeat state"))]) leased.keys

/-- How many tasks have the status. -/
def count (snapshot : WorkflowRunSnapshot) (status : TaskRunStatus) : Nat :=
  snapshot.tasks.countP fun task => task.status = status

def validateAggregateStatus (snapshot : WorkflowRunSnapshot) : Except RunError Unit :=
  let unfinished := snapshot.count .pending + snapshot.count .ready + snapshot.count .running +
    snapshot.count .retryWaiting
  match snapshot.status with
  | .pending =>
    firstError [(snapshot.count .pending ≠ snapshot.tasks.length,
      snapshot.invalid (ascii "pending workflow contains a task that has started"))]
  | .succeeded =>
    firstError [(snapshot.count .succeeded ≠ snapshot.tasks.length,
      snapshot.invalid (ascii "succeeded workflow contains a task that did not succeed"))]
  | .failed =>
    firstError [(0 < unfinished || snapshot.count .failed + snapshot.count .canceled = 0,
      snapshot.invalid (ascii "failed workflow has inconsistent task states"))]
  | .canceled =>
    firstError [(0 < unfinished || 0 < snapshot.count .failed,
      snapshot.invalid (ascii "canceled workflow has inconsistent task states"))]
  -- a task result and the terminal transition of the run are separate mutations
  | _ => .ok ()

def validate (snapshot : WorkflowRunSnapshot) : Except RunError Unit :=
  snapshot.checkHeader.bind fun _ =>
    (snapshot.checkTaskRuns snapshot.tasks ⟨∅, ∅⟩).bind fun scan =>
      (snapshot.checkWorkers snapshot.workers ∅).bind fun seenWorkers =>
        (snapshot.checkLeasedWorkers scan.leasedWorkers seenWorkers).bind fun _ =>
          snapshot.validateAggregateStatus

end WorkflowRunSnapshot

/-- A task run as `restoreWorkflowRun` takes it in: IDs that older releases did
not store are derived. -/
def TaskRun.restored (task : TaskRun) (runID : RunID) : TaskRun :=
  let task :=
    if task.taskRunID = [] then { task with taskRunID := taskRunIDFor runID task.taskID } else task
  if task.currentAttemptID = [] ∧ 0 < task.attemptCount then
    { task with currentAttemptID := attemptIDFor task.taskRunID task.attemptCount }
  else task

/-- The run built from the parts of a snapshot. -/
def restoredRun (snapshot : WorkflowRunSnapshot) (definition : WorkflowDefinition) :
    WorkflowRun where
  id := snapshot.id
  definition := cloneDefinition definition
  version := snapshot.version
  status := snapshot.status
  tasks := KeyMap.ofList (snapshot.tasks.map fun task => (task.taskID, task.restored snapshot.id))
  workers := KeyMap.ofList (snapshot.workers.map fun worker => (worker.workerID, worker))
  createdAt := snapshot.createdAt
  updatedAt := snapshot.updatedAt

def restoreWorkflowRun (snapshot : WorkflowRunSnapshot) (definition : WorkflowDefinition) :
    Except RunError WorkflowRun :=
  snapshot.validate.bind fun _ =>
    match definition.validate with
    | .error e => .error (.invalidDefinition e)
    | .ok _ =>
      (firstError [
        (snapshot.workflowID ≠ definition.id,
          snapshot.invalid (ascii "references workflow " ++ quote snapshot.workflowID ++
            ascii ", not " ++ quote definition.id)),
        (snapshot.tasks.length ≠ definition.tasks.length,
          snapshot.invalid (ascii "task runs do not match workflow definition"))]).bind fun _ =>
      let run := restoredRun snapshot definition
      (checkAll (fun (task : TaskDefinition) => firstError [
        (!run.tasks.contains task.id,
          snapshot.invalid (ascii "task run " ++ quote task.id ++ ascii " is missing"))])
        definition.tasks).bind fun _ => .ok run

/-! ## What validation accepts -/

structure LeaseValid (runID : RunID) (task : TaskRun) (lease : TaskLease) : Prop where
  running : task.status = .running
  worker : validIdentifier lease.workerID = true
  taskRun : task.taskRunID = taskRunIDFor runID task.taskID
  attempt : validIdentifier lease.attemptID = true
  leaseTaskRun : lease.taskRunID = taskRunIDFor runID task.taskID
  leaseAttempt : lease.attemptID = task.currentAttemptID
  expires : lease.expiresAt ≠ 0

structure TaskRunValid (runID : RunID) (createdAt : Int) (task : TaskRun) : Prop where
  id : validIdentifier task.taskID = true
  taskRun : task.taskRunID = [] ∨ task.taskRunID = taskRunIDFor runID task.taskID
  status : task.status.valid = true
  attempts : 0 ≤ task.attemptCount
  noAttempt : task.attemptCount = 0 → task.currentAttemptID = []
  attemptID : task.currentAttemptID = [] ∨
    task.currentAttemptID = attemptIDFor (taskRunIDFor runID task.taskID) task.attemptCount
  updated : task.updatedAt ≠ 0 ∧ createdAt ≤ task.updatedAt
  running : task.status = .running → task.attemptCount ≠ 0 ∧ task.startedAt ≠ 0
  completed : task.status = .succeeded ∨ task.status = .failed →
    task.attemptCount ≠ 0 ∧ task.finishedAt ≠ 0
  canceled : task.status = .canceled → task.finishedAt ≠ 0
  retryDeadline : task.status = .retryWaiting → task.nextAttemptAt ≠ 0
  retryAttempt : task.status = .retryWaiting → task.attemptCount ≠ 0 ∧ task.currentAttemptID ≠ []
  noDeadline : task.status ≠ .retryWaiting → task.nextAttemptAt = 0
  lease : ∀ lease, task.lease = some lease → LeaseValid runID task lease

structure WorkerValid (createdAt : Int) (worker : WorkerHeartbeat) : Prop where
  id : validIdentifier worker.workerID = true
  heartbeat : worker.lastHeartbeatAt ≠ 0 ∧ createdAt ≤ worker.lastHeartbeatAt

/-- What the status of a run says about the statuses of its tasks. -/
def AggregateStatus (status : WorkflowRunStatus) (tasks : List TaskRun) : Prop :=
  match status with
  | .pending => ∀ task ∈ tasks, task.status = .pending
  | .succeeded => ∀ task ∈ tasks, task.status = .succeeded
  | .failed => (∀ task ∈ tasks, task.status.unfinished = false) ∧
      ∃ task ∈ tasks, task.status = .failed ∨ task.status = .canceled
  | .canceled => ∀ task ∈ tasks, task.status.unfinished = false ∧ task.status ≠ .failed
  | _ => True

structure ValidSnapshot (snapshot : WorkflowRunSnapshot) : Prop where
  id : validIdentifier snapshot.id = true
  workflowID : validIdentifier snapshot.workflowID = true
  status : snapshot.status.valid = true
  created : snapshot.createdAt ≠ 0
  updated : snapshot.updatedAt ≠ 0 ∧ snapshot.createdAt ≤ snapshot.updatedAt
  tasks : snapshot.tasks ≠ []
  taskRuns : ∀ task ∈ snapshot.tasks, TaskRunValid snapshot.id snapshot.createdAt task
  taskIDs : (snapshot.tasks.map TaskRun.taskID).Nodup
  oneLease : (snapshot.tasks.filterMap TaskRun.leasedTo).Nodup
  workers : ∀ worker ∈ snapshot.workers, WorkerValid snapshot.createdAt worker
  workerIDs : (snapshot.workers.map WorkerHeartbeat.workerID).Nodup
  leasedWorkers : ∀ workerID ∈ snapshot.tasks.filterMap TaskRun.leasedTo,
    workerID ∈ snapshot.workers.map WorkerHeartbeat.workerID
  aggregate : AggregateStatus snapshot.status snapshot.tasks

/-- A worker holds the lease of one task. -/
theorem ValidSnapshot.holder_unique {snapshot : WorkflowRunSnapshot} (h : ValidSnapshot snapshot)
    {t t' : TaskRun} (ht : t ∈ snapshot.tasks) (ht' : t' ∈ snapshot.tasks) {w : WorkerID}
    (hw : t.leasedTo = some w) (hw' : t'.leasedTo = some w) : t = t' := by
  have : Std.Symm fun t t' : TaskRun =>
      ∀ w, t.leasedTo = some w → ∀ w', t'.leasedTo = some w' → w ≠ w' :=
    ⟨fun _ _ hR w hw w' hw' => (hR w' hw' w hw).symm⟩
  by_contra hne
  exact (List.pairwise_filterMap.mp h.oneLease).forall ht ht' hne w hw w hw' rfl

namespace WorkflowRunSnapshot

theorem badLease_eq_false_iff (s : WorkflowRunSnapshot) (t : TaskRun) (l : TaskLease) :
    s.badLease t l = false ↔ LeaseValid s.id t l := by
  simp only [badLease, Bool.or_eq_false_iff, decide_eq_false_iff_not, not_not,
    Bool.not_eq_false', ne_eq]
  constructor
  · rintro ⟨⟨⟨⟨⟨⟨h1, h2⟩, h3⟩, h4⟩, h5⟩, h6⟩, h7⟩
    exact ⟨h1, h2, h3, h4, h5, h6, h7⟩
  · rintro ⟨h1, h2, h3, h4, h5, h6, h7⟩
    exact ⟨⟨⟨⟨⟨⟨h1, h2⟩, h3⟩, h4⟩, h5⟩, h6⟩, h7⟩

theorem checkLease_ok_iff (s : WorkflowRunSnapshot) (scan : TaskScan) (t : TaskRun) :
    s.checkLease scan t = .ok () ↔ (∀ l, t.lease = some l → LeaseValid s.id t l) ∧
      ∀ w, t.leasedTo = some w → scan.leasedWorkers.contains w = false := by
  unfold checkLease TaskRun.leasedTo
  cases t.lease with
  | none => simp
  | some l => simp [badLease_eq_false_iff]

theorem checkTaskRun_ok_iff (s : WorkflowRunSnapshot) (scan : TaskScan) (t : TaskRun) :
    s.checkTaskRun scan t = .ok () ↔ TaskRunValid s.id s.createdAt t ∧
      scan.seen.contains t.taskID = false ∧
      ∀ w, t.leasedTo = some w → scan.leasedWorkers.contains w = false := by
  simp only [checkTaskRun, bind_unit_ok_iff, checkLease_ok_iff, firstError_cons, firstError_nil,
    and_true, Bool.and_eq_false_imp, Bool.or_eq_false_iff, decide_eq_false_iff_not, not_not,
    Bool.not_eq_false', ne_eq, decide_eq_true_eq, not_lt, Bool.or_eq_true]
  constructor
  · rintro ⟨⟨h1, hseen, h3, h4, h5, h6, h7, h8, h9, h10, h11, h12, h13, h14⟩, hl, hw⟩
    exact ⟨⟨h1, or_iff_not_imp_left.mpr h3, h4, h5, h6, or_iff_not_imp_left.mpr h7, h8, h9, h10,
      h11, h12, h13, h14, hl⟩, hseen, hw⟩
  · rintro ⟨⟨h1, h3, h4, h5, h6, h7, h8, h9, h10, h11, h12, h13, h14, hl⟩, hseen, hw⟩
    exact ⟨⟨h1, hseen, or_iff_not_imp_left.mp h3, h4, h5, h6, or_iff_not_imp_left.mp h7, h8, h9,
      h10, h11, h12, h13, h14⟩, hl, hw⟩

theorem note_seen (scan : TaskScan) (t : TaskRun) (id : TaskID) :
    (scan.note t).seen.contains id = true ↔ id = t.taskID ∨ scan.seen.contains id = true :=
  KeyMap.contains_insert _ _ _ _

theorem note_leasedWorkers (scan : TaskScan) (t : TaskRun) (w : WorkerID) :
    (scan.note t).leasedWorkers.contains w = true ↔
      t.leasedTo = some w ∨ scan.leasedWorkers.contains w = true := by
  unfold TaskScan.note TaskRun.leasedTo
  cases t.lease with
  | none => simp
  | some l =>
    rw [KeyMap.contains_insert, Option.map_some, Option.some.injEq, eq_comm (a := w)]

theorem foldl_note_leasedWorkers (w : WorkerID) :
    ∀ (l : List TaskRun) (scan : TaskScan),
      (l.foldl TaskScan.note scan).leasedWorkers.contains w = true ↔
        w ∈ l.filterMap TaskRun.leasedTo ∨ scan.leasedWorkers.contains w = true
  | [], scan => by simp
  | t :: l, scan => by
    rw [List.foldl_cons, foldl_note_leasedWorkers w l, note_leasedWorkers]
    simp only [List.mem_filterMap, List.mem_cons, exists_eq_or_imp]
    rw [or_left_comm, ← or_assoc]

/-- The loop accepts valid task runs with distinct IDs and distinct lease
holders, none of which the scan has met. -/
theorem checkTaskRuns_ok_iff (s : WorkflowRunSnapshot) :
    ∀ (l : List TaskRun) (scan scan' : TaskScan), s.checkTaskRuns l scan = .ok scan' ↔
      (∀ t ∈ l, TaskRunValid s.id s.createdAt t) ∧
      ((l.map TaskRun.taskID).Nodup ∧ ∀ t ∈ l, scan.seen.contains t.taskID = false) ∧
      ((l.filterMap TaskRun.leasedTo).Nodup ∧
        ∀ w ∈ l.filterMap TaskRun.leasedTo, scan.leasedWorkers.contains w = false) ∧
      scan' = l.foldl TaskScan.note scan
  | [], scan, scan' => by
    rw [checkTaskRuns, Except.ok.injEq, eq_comm (a := scan)]
    simp
  | t :: l, scan, scan' => by
    have hseen : (∀ u ∈ l, (scan.note t).seen.contains u.taskID = false) ↔
        t.taskID ∉ l.map TaskRun.taskID ∧ ∀ u ∈ l, scan.seen.contains u.taskID = false := by
      simp only [← Bool.not_eq_true, note_seen, not_or, List.mem_map, not_exists, not_and]
      exact ⟨fun h => ⟨fun u hu => (h u hu).1, fun u hu => (h u hu).2⟩,
        fun h u hu => ⟨h.1 u hu, h.2 u hu⟩⟩
    have hleased : (∀ w ∈ l.filterMap TaskRun.leasedTo,
          (scan.note t).leasedWorkers.contains w = false) ↔
        (∀ w, t.leasedTo = some w → w ∉ l.filterMap TaskRun.leasedTo) ∧
          ∀ w ∈ l.filterMap TaskRun.leasedTo, scan.leasedWorkers.contains w = false := by
      simp only [← Bool.not_eq_true, note_leasedWorkers, not_or]
      exact ⟨fun h => ⟨fun w hw hm => (h w hm).1 hw, fun w hm => (h w hm).2⟩,
        fun h w hm => ⟨fun hw => h.1 w hw hm, h.2 w hm⟩⟩
    rw [checkTaskRuns, bind_unit_ok_iff, checkTaskRun_ok_iff,
      checkTaskRuns_ok_iff s l (scan.note t) scan', hseen, hleased]
    cases ht : t.leasedTo with
    | none =>
      simp only [List.forall_mem_cons, List.map_cons, List.nodup_cons, List.filterMap_cons_none ht,
        List.foldl_cons, reduceCtorEq, false_implies, implies_true]
      tauto
    | some w =>
      simp only [List.forall_mem_cons, List.map_cons, List.nodup_cons, List.filterMap_cons_some ht,
        List.foldl_cons, Option.some.injEq, forall_eq']
      tauto

theorem checkWorkers_ok_iff (s : WorkflowRunSnapshot) :
    ∀ (l : List WorkerHeartbeat) (seen seen' : KeyMap WorkerID Unit),
      s.checkWorkers l seen = .ok seen' ↔
      (∀ w ∈ l, WorkerValid s.createdAt w) ∧
      ((l.map WorkerHeartbeat.workerID).Nodup ∧ ∀ w ∈ l, seen.contains w.workerID = false) ∧
      seen' = l.foldl (fun m w => m.insert w.workerID ()) seen
  | [], seen, seen' => by
    rw [checkWorkers, Except.ok.injEq, eq_comm (a := seen)]
    simp
  | w :: l, seen, seen' => by
    have hseen : (∀ u ∈ l, (seen.insert w.workerID ()).contains u.workerID = false) ↔
        w.workerID ∉ l.map WorkerHeartbeat.workerID ∧
          ∀ u ∈ l, seen.contains u.workerID = false := by
      simp only [← Bool.not_eq_true, KeyMap.contains_insert, not_or, List.mem_map, not_exists,
        not_and]
      exact ⟨fun h => ⟨fun u hu => (h u hu).1, fun u hu => (h u hu).2⟩,
        fun h u hu => ⟨h.1 u hu, h.2 u hu⟩⟩
    have hvalid : (!validIdentifier w.workerID || decide (w.lastHeartbeatAt = 0) ||
        decide (w.lastHeartbeatAt < s.createdAt)) = false ↔ WorkerValid s.createdAt w := by
      simp only [Bool.or_eq_false_iff, Bool.not_eq_false', decide_eq_false_iff_not, not_lt]
      exact ⟨fun h => ⟨h.1.1, h.1.2, h.2⟩, fun h => ⟨⟨h.id, h.heartbeat.1⟩, h.heartbeat.2⟩⟩
    rw [checkWorkers, bind_unit_ok_iff, checkWorkers_ok_iff s l, hseen]
    simp only [firstError_cons, firstError_nil, hvalid, and_true, List.forall_mem_cons,
      List.map_cons, List.nodup_cons, List.foldl_cons]
    tauto

theorem foldl_insert_contains (w : WorkerID) :
    ∀ (l : List WorkerHeartbeat) (seen : KeyMap WorkerID Unit),
      (l.foldl (fun m w => m.insert w.workerID ()) seen).contains w = true ↔
        w ∈ l.map WorkerHeartbeat.workerID ∨ seen.contains w = true
  | [], seen => by simp
  | u :: l, seen => by
    rw [List.foldl_cons, foldl_insert_contains w l, KeyMap.contains_insert, List.map_cons,
      List.mem_cons]
    tauto

theorem count_eq_length_iff (s : WorkflowRunSnapshot) (status : TaskRunStatus) :
    s.count status = s.tasks.length ↔ ∀ t ∈ s.tasks, t.status = status := by
  simp [count, List.countP_eq_length]

theorem count_eq_zero_iff (s : WorkflowRunSnapshot) (status : TaskRunStatus) :
    s.count status = 0 ↔ ∀ t ∈ s.tasks, t.status ≠ status := by
  simp [count, List.countP_eq_zero]

theorem unfinished_eq_zero_iff (s : WorkflowRunSnapshot) :
    s.count .pending + s.count .ready + s.count .running + s.count .retryWaiting = 0 ↔
      ∀ t ∈ s.tasks, t.status.unfinished = false := by
  simp only [Nat.add_eq_zero_iff, count_eq_zero_iff, ← forall_and]
  refine forall_congr' fun t => ?_
  cases t.status <;> simp [TaskRunStatus.unfinished]

theorem validateAggregateStatus_ok_iff (s : WorkflowRunSnapshot) :
    s.validateAggregateStatus = .ok () ↔ AggregateStatus s.status s.tasks := by
  unfold validateAggregateStatus AggregateStatus
  cases s.status with
  | pending => simp [count_eq_length_iff]
  | running => simp
  | succeeded => simp [count_eq_length_iff]
  | failed =>
    simp only [firstError_cons, firstError_nil, and_true, Bool.or_eq_false_iff,
      decide_eq_false_iff_not, Nat.pos_iff_ne_zero, not_not, unfinished_eq_zero_iff]
    simp only [Nat.add_eq_zero_iff, count_eq_zero_iff, ← forall_and, not_forall, not_and_or,
      ne_eq, not_not, exists_prop]
  | canceled =>
    simp only [firstError_cons, firstError_nil, and_true, Bool.or_eq_false_iff,
      decide_eq_false_iff_not, Nat.pos_iff_ne_zero, not_not, unfinished_eq_zero_iff,
      count_eq_zero_iff, ← forall_and]
  | other text => simp

theorem checkHeader_ok_iff (s : WorkflowRunSnapshot) :
    s.checkHeader = .ok () ↔ validIdentifier s.id = true ∧ validIdentifier s.workflowID = true ∧
      s.status.valid = true ∧ s.createdAt ≠ 0 ∧
      (s.updatedAt ≠ 0 ∧ s.createdAt ≤ s.updatedAt) ∧ s.tasks ≠ [] := by
  simp [checkHeader]

theorem checkLeasedWorkers_ok_iff (s : WorkflowRunSnapshot) (leased seen : KeyMap WorkerID Unit) :
    s.checkLeasedWorkers leased seen = .ok () ↔
      ∀ w, leased.contains w = true → seen.contains w = true := by
  simp [checkLeasedWorkers, KeyMap.mem_keys_iff, KeyMap.contains]

theorem validate_ok_iff (s : WorkflowRunSnapshot) : s.validate = .ok () ↔ ValidSnapshot s := by
  unfold validate
  rw [bind_unit_ok_iff, checkHeader_ok_iff, bind_eq_ok]
  constructor
  · rintro ⟨⟨h1, h2, h3, h4, h5, h6⟩, scan, hscan, h⟩
    obtain ⟨seen, hseen, h⟩ := bind_eq_ok.mp h
    obtain ⟨hl, ha⟩ := bind_unit_ok_iff.mp h
    obtain ⟨ht, ⟨hids, -⟩, ⟨hone, -⟩, rfl⟩ := (checkTaskRuns_ok_iff s _ _ _).mp hscan
    obtain ⟨hw, ⟨hwids, -⟩, rfl⟩ := (checkWorkers_ok_iff s _ _ _).mp hseen
    refine ⟨h1, h2, h3, h4, h5, h6, ht, hids, hone, hw, hwids, fun w hm => ?_,
      (validateAggregateStatus_ok_iff s).mp ha⟩
    have hc := (checkLeasedWorkers_ok_iff s _ _).mp hl w
      ((foldl_note_leasedWorkers w _ _).mpr (.inl hm))
    exact ((foldl_insert_contains w _ _).mp hc).resolve_right (by simp [KeyMap.contains])
  · intro h
    refine ⟨⟨h.id, h.workflowID, h.status, h.created, h.updated, h.tasks⟩, _,
      (checkTaskRuns_ok_iff s _ _ _).mpr ⟨h.taskRuns, ⟨h.taskIDs, ?_⟩, ⟨h.oneLease, ?_⟩, rfl⟩, ?_⟩
    · simp [KeyMap.contains]
    · simp [KeyMap.contains]
    refine bind_eq_ok.mpr ⟨_,
      (checkWorkers_ok_iff s _ _ _).mpr ⟨h.workers, ⟨h.workerIDs, ?_⟩, rfl⟩, ?_⟩
    · simp [KeyMap.contains]
    refine bind_unit_ok_iff.mpr ⟨(checkLeasedWorkers_ok_iff s _ _).mpr fun w hw => ?_,
      (validateAggregateStatus_ok_iff s).mpr h.aggregate⟩
    have hm := ((foldl_note_leasedWorkers w _ _).mp hw).resolve_right (by simp [KeyMap.contains])
    exact (foldl_insert_contains w _ _).mpr (.inl (h.leasedWorkers w hm))

end WorkflowRunSnapshot

end ForgeFlow.Execution
