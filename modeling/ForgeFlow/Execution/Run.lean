import ForgeFlow.Workflow.Graph

/-!
# The workflow run aggregate

Task runs, the run that holds them, and the transitions of `run.go`. Instants are
nanoseconds after the zero time, so the zero time is `0`; every operation that
reads the clock takes the reading as its last argument.
-/

namespace ForgeFlow.Execution

open ForgeFlow.Base ForgeFlow.Workflow

abbrev RunID := GoString
abbrev TaskRunID := GoString
abbrev AttemptID := GoString
abbrev WorkerID := GoString

/-- A status is stored as a string; `other` is a string that names no status. -/
inductive WorkflowRunStatus where
  | pending
  | running
  | succeeded
  | failed
  | canceled
  | other (text : GoString)
  deriving DecidableEq

inductive TaskRunStatus where
  | pending
  | ready
  | running
  | retryWaiting
  | succeeded
  | failed
  | canceled
  | other (text : GoString)
  deriving DecidableEq

namespace WorkflowRunStatus

def text : WorkflowRunStatus → GoString
  | pending => ascii "pending"
  | running => ascii "running"
  | succeeded => ascii "succeeded"
  | failed => ascii "failed"
  | canceled => ascii "canceled"
  | other t => t

def valid : WorkflowRunStatus → Bool
  | other _ => false
  | _ => true

/-- The statuses a run never leaves. -/
def terminal : WorkflowRunStatus → Bool
  | succeeded | failed | canceled => true
  | _ => false

end WorkflowRunStatus

namespace TaskRunStatus

def text : TaskRunStatus → GoString
  | pending => ascii "pending"
  | ready => ascii "ready"
  | running => ascii "running"
  | retryWaiting => ascii "retry_wait"
  | succeeded => ascii "succeeded"
  | failed => ascii "failed"
  | canceled => ascii "canceled"
  | other t => t

def valid : TaskRunStatus → Bool
  | other _ => false
  | _ => true

def terminal : TaskRunStatus → Bool
  | succeeded | failed | canceled => true
  | _ => false

/-- The statuses `cancelUnfinished` moves to canceled. -/
def unfinished : TaskRunStatus → Bool
  | pending | ready | running | retryWaiting => true
  | _ => false

end TaskRunStatus

structure TaskLease where
  workerID : WorkerID
  taskRunID : TaskRunID
  attemptID : AttemptID
  expiresAt : Int
  deriving DecidableEq

structure WorkerHeartbeat where
  workerID : WorkerID
  lastHeartbeatAt : Int
  deriving DecidableEq

structure TaskRun where
  taskID : TaskID
  taskRunID : TaskRunID := []
  status : TaskRunStatus
  output : GoString := []
  error : GoString := []
  attemptCount : Int := 0
  currentAttemptID : AttemptID := []
  nextAttemptAt : Int := 0
  lease : Option TaskLease := none
  updatedAt : Int := 0
  startedAt : Int := 0
  finishedAt : Int := 0
  deriving DecidableEq

@[ext] structure WorkflowRun where
  id : RunID
  definition : WorkflowDefinition
  version : Nat
  status : WorkflowRunStatus
  tasks : KeyMap TaskID TaskRun
  workers : KeyMap WorkerID WorkerHeartbeat
  createdAt : Int
  updatedAt : Int
  deriving DecidableEq

/-- An error as the aggregate sees one: its message, and whether its chain
holds a retry marker. -/
structure TaskError where
  text : GoString
  retryable : Bool := false
  deriving DecidableEq

inductive RunError where
  | invalidRunID (runID : RunID)
  | invalidDefinition (cause : ValidationError)
  | unknownTaskRun (runID : RunID) (taskID : TaskID)
  | taskTransition (runID : RunID) (taskID : TaskID) (source target : TaskRunStatus)
  | workflowTransition (runID : RunID) (source target : WorkflowRunStatus)
  | invalidArgument (text : GoString)
  | snapshotValidation (runID : RunID) (reason : GoString)
  deriving DecidableEq

/-! ## Identifiers -/

def validRunID (runID : RunID) : Bool := validIdentifier runID

def taskRunIDFor (runID : RunID) (taskID : TaskID) : TaskRunID :=
  formatNat runID.length ++ ascii ":" ++ runID ++ ascii ":" ++ taskID

def attemptIDFor (taskRunID : TaskRunID) (attempt : Int) : AttemptID :=
  taskRunID ++ ascii ":attempt:" ++ formatInt attempt

theorem attemptIDFor_injective {r r' : TaskRunID} {n n' : Int}
    (h : attemptIDFor r n = attemptIDFor r' n') : r = r' ∧ n = n' := by
  have hcolon : ∀ m : Int, (0x3A : UInt8) ∉ formatInt m := by
    intro m hm
    rcases formatInt_byte hm with hb | hb
    · exact absurd hb (by decide)
    · exact absurd hb (by decide)
  have hsplit : ∀ (s : TaskRunID) (m : Int),
      attemptIDFor s m = (s ++ ascii ":attempt") ++ 0x3A :: formatInt m := by
    intro s m
    simp [attemptIDFor, ascii]
  rw [hsplit, hsplit] at h
  obtain ⟨hr, hn⟩ := append_sep_inj (hcolon n) (hcolon n') h
  exact ⟨List.append_cancel_right hr, formatInt_injective hn⟩

theorem taskRunIDFor_injective {r r' : RunID} {t t' : TaskID}
    (h : taskRunIDFor r t = taskRunIDFor r' t') : r = r' ∧ t = t' := by
  have hcolon : ∀ m : Nat, (0x3A : UInt8) ∉ formatNat m := by
    intro m hm
    exact absurd (formatNat_digit hm) (by decide)
  have hsplit : ∀ (s : RunID) (u : TaskID),
      taskRunIDFor s u = formatNat s.length ++ 0x3A :: (s ++ 0x3A :: u) := by
    intro s u
    simp [taskRunIDFor, ascii]
  rw [hsplit, hsplit] at h
  obtain ⟨hlen, htail⟩ := sep_append_inj (hcolon _) (hcolon _) h
  obtain ⟨hr, ht⟩ := List.append_inj htail (formatNat_injective hlen)
  exact ⟨hr, (List.cons.inj ht).2⟩

theorem attemptIDFor_ne_nil (r : TaskRunID) (n : Int) : attemptIDFor r n ≠ [] := by
  simp [attemptIDFor, ascii]

theorem taskRunIDFor_ne_nil (r : RunID) (t : TaskID) : taskRunIDFor r t ≠ [] := by
  simp [taskRunIDFor, ascii]

/-- The separators and numerals keep an attempt ID a valid identifier. -/
theorem validIdentifier_attemptIDFor {r : RunID} {t : TaskID} (hr : validIdentifier r = true)
    (ht : validIdentifier t = true) (n : Int) :
    validIdentifier (attemptIDFor (taskRunIDFor r t) n) = true := by
  have hlen : (runes (formatNat r.length)).all plainRune = true :=
    all_plainRune_of_printable fun b hb => formatInt_printable (n := r.length) hb
  have hnum : (runes (formatInt n)).all plainRune = true :=
    all_plainRune_of_printable fun b hb => formatInt_printable hb
  have hword : (runes (ascii "attempt")).all plainRune = true := by decide
  have hsep : plainRune (0x3A : UInt8).toNat = true := by decide
  have hsplit : attemptIDFor (taskRunIDFor r t) n =
      formatNat r.length ++ 0x3A :: (r ++ 0x3A :: (t ++ 0x3A ::
        (ascii "attempt" ++ 0x3A :: formatInt n))) := by
    simp [attemptIDFor, taskRunIDFor, ascii]
  simp only [validIdentifier, plainIdentifier_eq, Bool.and_eq_true] at hr ht ⊢
  refine ⟨by simp [attemptIDFor, ascii], ?_⟩
  have hc : (0x3A : UInt8) < 0x80 := by decide
  rw [hsplit, all_runes_append_ascii _ _ _ hc, all_runes_append_ascii _ _ _ hc,
    all_runes_append_ascii _ _ _ hc, all_runes_append_ascii _ _ _ hc]
  simp only [hlen, hsep, hr.2, ht.2, hword, hnum, Bool.and_self]

/-! ## Creation and transitions -/

def newWorkflowRun (runID : RunID) (definition : WorkflowDefinition) (now : Int) :
    Except RunError WorkflowRun :=
  if !validRunID runID then .error (.invalidRunID runID)
  else match definition.validate with
    | .error e => .error (.invalidDefinition e)
    | .ok _ =>
      let definition := cloneDefinition definition
      .ok {
        id := runID
        definition := definition
        version := 0
        status := .pending
        tasks := KeyMap.ofList (definition.tasks.map fun task =>
          (task.id,
            { taskID := task.id
              taskRunID := taskRunIDFor runID task.id
              status := .pending
              updatedAt := now }))
        workers := ∅
        createdAt := now
        updatedAt := now }

def legalTaskTransition (source target : TaskRunStatus) : Bool :=
  match source with
  | .pending => target = .ready || target = .canceled
  | .ready => target = .running || target = .canceled
  | .running => target = .succeeded || target = .failed || target = .canceled
  | .retryWaiting => target = .ready || target = .canceled
  | _ => false

def legalWorkflowTransition (source target : WorkflowRunStatus) : Bool :=
  match source with
  | .pending => target = .running || target = .canceled
  | .running => target = .succeeded || target = .failed || target = .canceled
  | _ => false

/-- The task as `transitionTask` leaves it. -/
def TaskRun.enter (task : TaskRun) (runID : RunID) (taskID : TaskID) (target : TaskRunStatus)
    (output : GoString) (taskErr : Option TaskError) (timestamp : Int) : TaskRun :=
  let task := { task with status := target, output := [], error := [], updatedAt := timestamp }
  let task :=
    if target = .running then
      let attempts := task.attemptCount + 1
      { task with
        attemptCount := attempts
        taskRunID := taskRunIDFor runID taskID
        currentAttemptID := attemptIDFor (taskRunIDFor runID taskID) attempts
        startedAt := timestamp
        finishedAt := 0
        nextAttemptAt := 0 }
    else task
  let task := if target = .succeeded then { task with output := output } else task
  let task :=
    match taskErr with
    | some e => if target = .failed ∨ target = .canceled then { task with error := e.text } else task
    | none => task
  if target.terminal then
    { task with finishedAt := timestamp, lease := none, nextAttemptAt := 0 }
  else task

/-- The task as `cancelUnfinished` leaves it. -/
def TaskRun.cancel (task : TaskRun) (cause : Option TaskError) (timestamp : Int) : TaskRun :=
  if task.status.unfinished then
    { task with
      status := .canceled
      output := []
      error := (cause.map TaskError.text).getD []
      updatedAt := timestamp
      finishedAt := timestamp
      nextAttemptAt := 0
      lease := none }
  else task

namespace WorkflowRun

def nextTimestamp (run : WorkflowRun) (now : Int) : Int :=
  if now < run.updatedAt then run.updatedAt else now

/-- The task runs in the order of their IDs, which is how `Tasks` sorts them. -/
def sortedTasks (run : WorkflowRun) : List TaskRun := run.tasks.values

def sortedWorkers (run : WorkflowRun) : List WorkerHeartbeat := run.workers.values

def setPersistedVersion (run : WorkflowRun) (version : Nat) : WorkflowRun :=
  { run with version := version }

def taskStatus (run : WorkflowRun) (taskID : TaskID) : Except RunError TaskRunStatus :=
  match run.tasks.get? taskID with
  | none => .error (.unknownTaskRun run.id taskID)
  | some task => .ok task.status

def transitionTask (run : WorkflowRun) (taskID : TaskID) (target : TaskRunStatus)
    (output : GoString) (taskErr : Option TaskError) (now : Int) : Except RunError WorkflowRun :=
  match run.tasks.get? taskID with
  | none => .error (.unknownTaskRun run.id taskID)
  | some task =>
    if !legalTaskTransition task.status target then
      .error (.taskTransition run.id taskID task.status target)
    else
      let timestamp := run.nextTimestamp now
      .ok { run with
        tasks := run.tasks.insert taskID (task.enter run.id taskID target output taskErr timestamp)
        updatedAt := timestamp }

def transitionWorkflow (run : WorkflowRun) (target : WorkflowRunStatus) (now : Int) :
    Except RunError WorkflowRun :=
  if !legalWorkflowTransition run.status target then
    .error (.workflowTransition run.id run.status target)
  else .ok { run with status := target, updatedAt := run.nextTimestamp now }

def cancelUnfinished (run : WorkflowRun) (cause : Option TaskError) (now : Int) : WorkflowRun :=
  let timestamp := run.nextTimestamp now
  { run with
    tasks := run.tasks.map fun _ task => task.cancel cause timestamp
    updatedAt :=
      if run.tasks.values.any fun task => task.status.unfinished then timestamp
      else run.updatedAt }

end WorkflowRun

end ForgeFlow.Execution
