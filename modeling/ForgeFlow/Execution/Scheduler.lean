import ForgeFlow.Base.Context
import ForgeFlow.Base.Prog
import ForgeFlow.Execution.Broker
import ForgeFlow.Execution.Operations

/-!
# The scheduler of a run

`Execute`, `Recover` and the loop of `executeBrokerRun` as programs. What they
read from or do to their surroundings is a call: the clock, the context, the
store, the broker, the workers and their channels. One pass through the loop is
`schedulerRound`; the source's early returns end it with `done`.
-/

namespace ForgeFlow.Execution

open ForgeFlow.Base ForgeFlow.Workflow

/-- The configuration a `NewEngine` call has accepted. -/
structure EngineConfig where
  workerCount : Nat
  leaseDuration : Int
  workerNamespace : GoString
  registered : HandlerName → Bool
  workerCount_pos : 1 ≤ workerCount
  leaseDuration_pos : 0 < leaseDuration
  workerNamespace_valid : validIdentifier workerNamespace = true

/-- A claim; `response` tells its response channel from those of other claims. -/
structure WorkerClaim where
  workerID : WorkerID
  slot : Nat
  delivery : Delivery
  response : Nat
  deriving DecidableEq

structure TaskRequest where
  runID : RunID
  taskRunID : TaskRunID
  attemptID : AttemptID
  task : TaskDefinition
  deriving DecidableEq

/-- The cancel functions a call of `Execute` or `Recover` deals with: its caller's,
`cancelRunWorkers`, and the one of each worker. -/
inductive CancelFunc where
  | caller
  | runWorkers
  | worker (workerID : WorkerID)
  deriving DecidableEq

/-- The context of the call, with its span. -/
def callContext : Context CancelFunc := (Context.outside .caller).withValue

def runContext : Context CancelFunc := callContext.withCancel .runWorkers

def workerContext (workerID : WorkerID) : Context CancelFunc :=
  runContext.withCancel (.worker workerID)

/-- What `Extract` makes of the context of the call: it adds the trace of the message. -/
def taskContext : Context CancelFunc := callContext.withValue

structure TaskJob where
  context : Context CancelFunc
  request : TaskRequest
  handler : Option HandlerName
  deriving DecidableEq

structure BrokerTaskResult where
  taskID : TaskID
  taskRunID : TaskRunID
  workerID : WorkerID
  attemptID : AttemptID
  output : GoString
  err : Option TaskError
  delivery : Delivery
  deriving DecidableEq

/-- What a worker reports of a job it was given for its claim. -/
def taskResult (claim : WorkerClaim) (job : TaskJob) (output : GoString)
    (err : Option TaskError) : BrokerTaskResult where
  taskID := job.request.task.id
  taskRunID := job.request.taskRunID
  workerID := claim.workerID
  attemptID := job.request.attemptID
  output := output
  err := err
  delivery := claim.delivery

/-- What the `select` of the loop can take. -/
inductive SchedulerEvent where
  | claim (claim : WorkerClaim)
  | heartbeat (workerID : WorkerID)
  | lost (workerID : WorkerID) (slot : Nat)
  | brokerError (workerID : WorkerID) (slot : Nat) (err : GoString)
  | result (result : BrokerTaskResult)
  | timer
  | done (err : GoString)
  deriving DecidableEq

inductive EngineCall where
  | now
  | nows
  | contextErr
  | saveWorkflow (definition : WorkflowDefinition)
  | createRun (snapshot : WorkflowRunSnapshot)
  | saveRun (snapshot : WorkflowRunSnapshot)
  | loadRun (runID : RunID)
  | loadWorkflow (workflowID : WorkflowID)
  | publish (message : TaskMessage)
  | ack (delivery : Delivery)
  | nack (delivery : Delivery)
  | progress (delivery : Delivery)
  | spawnWorker (workerID : WorkerID) (slot : Nat)
  | cancelWorker (workerID : WorkerID)
  | cancelWorkers
  | waitWorkers
  | respond (claim : WorkerClaim) (job : Option TaskJob)
  | select (timer : Bool)
  deriving DecidableEq

/-- `now` reads the clock once and `nows` as often as a loop needs it. -/
abbrev EngineResult : EngineCall → Type
  | .now => Int
  | .nows => Nat → Int
  | .contextErr => Option GoString
  | .saveWorkflow _ => Except GoString Unit
  | .createRun _ | .saveRun _ => Except GoString WorkflowRunSnapshot
  | .loadRun _ => Except GoString (Option WorkflowRunSnapshot)
  | .loadWorkflow _ => Except GoString (Option WorkflowDefinition)
  | .publish _ => Except GoString Unit
  | .ack _ | .nack _ | .progress _ => Except DeliveryError Unit
  | .spawnWorker .. | .cancelWorker _ | .cancelWorkers | .waitWorkers | .respond .. => Unit
  | .select _ => SchedulerEvent

abbrev Engine := Prog EngineCall EngineResult

/-- The variables of `executeBrokerRun` that live across rounds. -/
structure Scheduler where
  run : WorkflowRun
  handlers : KeyMap TaskID HandlerName
  completed : KeyMap TaskID Unit
  ready : KeyMap TaskID TaskDefinition
  workers : KeyMap WorkerID Nat := ∅
  currentBySlot : KeyMap Nat WorkerID := ∅
  generations : KeyMap Nat Nat := ∅
  inFlight : KeyMap AttemptID Unit := ∅
  activeDeliveries : KeyMap WorkerID Delivery := ∅
  pendingClaims : KeyMap AttemptID (List WorkerClaim) := ∅
  published : KeyMap AttemptID Unit := ∅

structure RunOutcome where
  run : Option WorkflowRun
  error : Option GoString

abbrev Round := Engine (Step Scheduler RunOutcome)

/-- Make a call and go on with its result. -/
def call (c : EngineCall) : Engine (EngineResult c) := Prog.perform c

/-! ## Saving and ending a run -/

def applyPersistedVersion (run : WorkflowRun) (candidate stored : WorkflowRunSnapshot) :
    Except GoString WorkflowRun :=
  (firstError [
    (stored.id ≠ candidate.id || stored.workflowID ≠ candidate.workflowID,
      ascii "store returned a different workflow run after persistence"),
    (stored.version ≠ candidate.version + 1,
      ascii "store returned workflow run version " ++ formatNat stored.version ++
        ascii " after version " ++ formatNat candidate.version)]).bind fun _ =>
    .ok (run.setPersistedVersion stored.version)

/-- What a store returned for the run, with the run at its new version. -/
def persisted (run : WorkflowRun) (operation : String)
    (answer : Except GoString WorkflowRunSnapshot) : Except GoString WorkflowRun :=
  (answer.bind fun stored => applyPersistedVersion run run.snapshot stored).mapError
    (persistenceError operation run.id)

def saveRun (run : WorkflowRun) (operation : String) : Engine (Except GoString WorkflowRun) := do
  let answer ← call (.saveRun run.snapshot)
  return persisted run operation answer

def failRun (run : WorkflowRun) (cause : GoString) : Engine RunOutcome := do
  let now ← call .now
  let now' ← call .now
  match stopRun run .failed (some { text := cause }) now now' with
  | (run, .error e) =>
    return ⟨some run, some (joinErrors [some cause, some (ascii "mark workflow failed: " ++ e.text)])⟩
  | (run, .ok _) =>
    match ← saveRun run "fail workflow run" with
    | .error e => return ⟨some run, some (joinErrors [some cause, some e])⟩
    | .ok run => return ⟨some run, some cause⟩

def cancelRun (run : WorkflowRun) (cause : GoString) : Engine RunOutcome := do
  let now ← call .now
  let now' ← call .now
  match stopRun run .canceled (some { text := cause }) now now' with
  | (run, .error e) => return ⟨some run, some (ascii "cancel workflow run: " ++ e.text)⟩
  | (run, .ok _) =>
    match ← saveRun run "cancel workflow run" with
    | .error e => return ⟨some run, some (joinErrors [some (runCanceledError run.id cause), some e])⟩
    | .ok run => return ⟨some run, some (runCanceledError run.id cause)⟩

def shutdownWorkers : Engine Unit := do
  call .cancelWorkers
  call .waitWorkers

/-- Stop the workers and return the run as it is, with the error. -/
def abandon (st : Scheduler) (err : GoString) : Round := do
  shutdownWorkers
  return .done ⟨some st.run, some err⟩

def failWith (st : Scheduler) (cause : GoString) : Round := do
  shutdownWorkers
  let outcome ← failRun st.run cause
  return .done outcome

def cancelWith (st : Scheduler) (cause : GoString) : Round := do
  shutdownWorkers
  let outcome ← cancelRun st.run cause
  return .done outcome

/-! ## Workers and deliveries -/

def workerIDFor (config : EngineConfig) (runID : RunID) (slot generation : Nat) : WorkerID :=
  config.workerNamespace ++ ascii "/" ++ runID ++ ascii "/slot-" ++ formatNat slot ++
    ascii "/generation-" ++ formatNat generation

theorem workerIDFor_ne_nil (config : EngineConfig) (runID : RunID) (slot generation : Nat) :
    workerIDFor config runID slot generation ≠ [] := by
  simp [workerIDFor, ascii]

namespace Scheduler

/-- The worker is the one its slot counts on; a slot without one has the empty ID. -/
def isCurrent (st : Scheduler) (slot : Nat) (workerID : WorkerID) : Bool :=
  (st.currentBySlot.get? slot).getD [] = workerID

theorem get?_of_isCurrent {st : Scheduler} {slot : Nat} {workerID : WorkerID}
    (h : st.isCurrent slot workerID = true) (hne : workerID ≠ []) :
    st.currentBySlot.get? slot = some workerID := by
  have hslot := of_decide_eq_true h
  cases hget : st.currentBySlot.get? slot with
  | none =>
    rw [hget] at hslot
    exact absurd hslot.symm hne
  | some id =>
    rw [hget] at hslot
    exact congrArg some hslot

def spawnWorker (config : EngineConfig) (st : Scheduler) (slot : Nat) : Engine Scheduler := do
  let generation := (st.generations.get? slot).getD 0 + 1
  let workerID := workerIDFor config st.run.id slot generation
  call (.spawnWorker workerID slot)
  return { st with
    generations := st.generations.insert slot generation
    workers := st.workers.insert workerID slot
    currentBySlot := st.currentBySlot.insert slot workerID }

def spawnWorkers (config : EngineConfig) (st : Scheduler) : List Nat → Engine Scheduler
  | [] => return st
  | slot :: rest => do
    let st ← spawnWorker config st slot
    spawnWorkers config st rest

def replaceWorker (config : EngineConfig) (st : Scheduler) (workerID : WorkerID) :
    Engine Scheduler :=
  match st.workers.get? workerID with
  | none => return st
  | some slot =>
    if !st.isCurrent slot workerID then return st
    else do
      call (.cancelWorker workerID)
      spawnWorker config { st with
        activeDeliveries := st.activeDeliveries.erase workerID
        workers := st.workers.erase workerID
        currentBySlot := st.currentBySlot.erase slot } slot

end Scheduler

/-- Acknowledge; on an error hand the delivery back, if it is still active. -/
def acknowledgeDelivery (runID : RunID) (delivery : Delivery) : Engine (Option GoString) := do
  match ← call (.ack delivery) with
  | .ok _ => return none
  | .error err =>
    let nackErr ← call (.nack delivery)
    let also := match nackErr with
      | .error (.failed text) => some text
      | _ => none
    return some (brokerOperationError "acknowledge task" runID delivery.message.id
      (joinErrors [some err.text, also]))

def acknowledgePendingClaims (runID : RunID) : List WorkerClaim → Engine (Option GoString)
  | [] => return none
  | claim :: rest => do
    match ← acknowledgeDelivery runID claim.delivery with
    | some err => return some err
    | none =>
      call (.respond claim none)
      acknowledgePendingClaims runID rest

def Scheduler.pendingFor (st : Scheduler) (attemptID : AttemptID) : List WorkerClaim :=
  (st.pendingClaims.get? attemptID).getD []

def Scheduler.settlePending (st : Scheduler) (attemptID : AttemptID) : Scheduler :=
  { st with pendingClaims := st.pendingClaims.erase attemptID }

/-! ## The parts of a round -/

namespace Scheduler

def definitionOf (st : Scheduler) (taskID : TaskID) : TaskDefinition :=
  requireDefinition (taskDefinitionsByID st.run.definition) taskID

def addReady (st : Scheduler) (taskID : TaskID) (task : TaskDefinition) : Scheduler :=
  { st with ready := st.ready.insert taskID task }

def addReadyTasks (st : Scheduler) (tasks : List TaskDefinition) : Scheduler :=
  tasks.foldl (fun st task => st.addReady task.id task) st

def isReady (st : Scheduler) (taskID : TaskID) : Bool :=
  match st.run.tasks.get? taskID with
  | some task => task.status = .ready
  | none => false

end Scheduler

def checkContext (st : Scheduler) : Round := do
  match ← call .contextErr with
  | some contextErr => cancelWith st contextErr
  | none => return .again st

/-- The worker of a recovered lease is replaced, if the lease named one. -/
def replaceRecovered (config : EngineConfig) (st : Scheduler) (workerID : WorkerID) :
    Engine Scheduler :=
  if workerID = [] then return st else st.replaceWorker config workerID

/-- Replace the workers of recovered leases and take up the tasks to retry; the
last lease without another attempt is the failure to report. -/
def noteRecoveries (config : EngineConfig) : List LeaseRecovery → Scheduler → Option GoString →
    Engine (Scheduler × Option GoString)
  | [], st, leaseFailure => return (st, leaseFailure)
  | recovery :: rest, st, leaseFailure => do
    let st := { st with inFlight := st.inFlight.erase recovery.attemptID }
    let st ← replaceRecovered config st recovery.workerID
    if recovery.outcome = .retryScheduled then
      let task := st.definitionOf recovery.taskID
      let st := if st.isReady recovery.taskID then st.addReady task.id task else st
      noteRecoveries config rest st leaseFailure
    else
      noteRecoveries config rest st (some (taskExecutionError st.run.id recovery.taskID
        (leaseExpiredText st.run.id recovery.taskID recovery.attemptID)))

def acknowledgeRecoveries : List LeaseRecovery → Scheduler → Engine (Except GoString Scheduler)
  | [], st => return .ok st
  | recovery :: rest, st => do
    match ← acknowledgePendingClaims st.run.id (st.pendingFor recovery.attemptID) with
    | some err => return .error err
    | none => acknowledgeRecoveries rest (st.settlePending recovery.attemptID)

def saveRecoveries (st : Scheduler) (recoveries : List LeaseRecovery) (promoted : List TaskID) :
    Round :=
  if recoveries = [] ∧ promoted = [] then return .again st
  else do
    match ← saveRun st.run "recover expired leases and due retries" with
    | .error err => failWith st err
    | .ok run =>
      match ← acknowledgeRecoveries recoveries { st with run := run } with
      | .error err => abandon { st with run := run } err
      | .ok st => return .again st

def recoverLeases (config : EngineConfig) (st : Scheduler) : Round := do
  let now ← call .now
  let (run, recoveries) := st.run.recoverExpiredLeases now
  let now' ← call .now
  let (run, promoted) := run.promoteDueRetries now'
  let (st, leaseFailure) ← noteRecoveries config recoveries { st with run := run } none
  let st := promoted.foldl (fun st taskID => st.addReady taskID (st.definitionOf taskID)) st
  Step.andThen (saveRecoveries st recoveries promoted) fun st =>
    match leaseFailure with
    | some cause => failWith st cause
    | none => return .again st

def completeWorkflow (st : Scheduler) : Round :=
  if st.completed.size = st.run.definition.tasks.length then do
    shutdownWorkers
    let now ← call .now
    match st.run.transitionWorkflow .succeeded now with
    | .error e =>
      let outcome ← failRun st.run (ascii "complete workflow run: " ++ e.text)
      return .done outcome
    | .ok run =>
      match ← saveRun run "complete workflow run" with
      | .error err => return .done ⟨some run, some err⟩
      | .ok run => return .done ⟨some run, none⟩
  else return .again st

def publishTasks : List TaskID → Scheduler → Engine (Except GoString Scheduler)
  | [], st => return .ok st
  | taskID :: rest, st =>
    match st.run.tasks.get? taskID with
    | none => return .error (describe [("publish ready task ", taskID)] ": task run is missing")
    | some task =>
      let attemptID := attemptIDFor task.taskRunID (task.attemptCount + 1)
      if st.published.contains attemptID then publishTasks rest st
      else do
        let message := dispatchMessage ⟨st.run.id, taskID, task.taskRunID, attemptID⟩
        match ← call (.publish message) with
        | .error err => return .error (brokerOperationError "publish task" st.run.id message.id err)
        | .ok _ => publishTasks rest { st with published := st.published.insert attemptID () }

def publishReadyTasks (st : Scheduler) : Round := do
  match ← publishTasks st.ready.keys st with
  | .error err => abandon st err
  | .ok st => return .again st

def checkStalled (st : Scheduler) : Round :=
  if st.ready.size = 0 ∧ st.inFlight.size = 0 ∧ st.run.nextReliabilityDeadline.2 = false then
    failWith st (describe [("workflow run ", st.run.id)] " stalled with unfinished tasks")
  else return .again st

/-! ## The events -/

/-- What `brokerOperationError` is given when no error came with the failure. -/
def unknownBrokerFailure (errs : List (Option GoString)) : GoString :=
  if errs.filterMap id = [] then ascii "unknown task broker failure" else joinErrors errs

def rejectStale (st : Scheduler) (claim : WorkerClaim) : Round := do
  match ← call (.nack claim.delivery) with
  | .error (.failed err) =>
    abandon st (brokerOperationError "nack stale worker delivery" st.run.id
      claim.delivery.message.id err)
  | _ =>
    call (.respond claim none)
    return .again st

def refuseDelivery (st : Scheduler) (claim : WorkerClaim) (operation : String)
    (cause : Option GoString) : Round := do
  let ackErr ← acknowledgeDelivery st.run.id claim.delivery
  call (.respond claim none)
  abandon st (brokerOperationError operation st.run.id claim.delivery.message.id
    (unknownBrokerFailure [cause, ackErr]))

def leaseDelivered (config : EngineConfig) (st : Scheduler) (claim : WorkerClaim)
    (taskID : TaskID) (task : TaskRun) : Round := do
  let now ← call .now
  match st.run.startTaskAttempt taskID claim.workerID config.leaseDuration now with
  | .error e => failWith st (ascii "lease delivered task: " ++ e.text)
  | .ok (run, attemptID) =>
    match ← saveRun run "lease delivered task" with
    | .error err => abandon { st with run := run } err
    | .ok run =>
      let st := { st with
        run := run
        ready := st.ready.erase taskID
        inFlight := st.inFlight.insert attemptID ()
        activeDeliveries := st.activeDeliveries.insert claim.workerID claim.delivery }
      call (.respond claim (some {
        context := taskContext
        request := ⟨run.id, task.taskRunID, attemptID, cloneTaskDefinition (st.definitionOf taskID)⟩
        handler := st.handlers.get? taskID }))
      return .again st

/-- A delivery of an attempt that is over, or that is not up yet. -/
def dropDelivery (st : Scheduler) (claim : WorkerClaim) : Round := do
  match ← acknowledgeDelivery st.run.id claim.delivery with
  | some err => abandon st err
  | none =>
    call (.respond claim none)
    return .again st

def handleClaim (config : EngineConfig) (st : Scheduler) (claim : WorkerClaim) : Round :=
  let delivered := claim.delivery.message
  if !st.isCurrent claim.slot claim.workerID then rejectStale st claim
  else match decodeTaskDispatch delivered with
    | .error err => refuseDelivery st claim "decode task delivery" (some err)
    | .ok dispatch =>
      if dispatch.runID ≠ st.run.id ∨ delivered.topic ≠ taskTopic st.run.id ∨
          delivered.id ≠ dispatch.attemptID then
        refuseDelivery st claim "decode task delivery" none
      else match st.run.tasks.get? dispatch.taskID with
        | none =>
          refuseDelivery st claim "validate task delivery"
            (some (ascii "delivery references unknown task identity"))
        | some task =>
          if dispatch.taskRunID ≠ taskRunIDFor st.run.id dispatch.taskID then
            refuseDelivery st claim "validate task delivery"
              (some (ascii "delivery references unknown task identity"))
          else if task.status = .ready ∧
              dispatch.attemptID = attemptIDFor task.taskRunID (task.attemptCount + 1) then
            leaseDelivered config st claim dispatch.taskID task
          else if task.status = .running ∧ dispatch.attemptID = task.currentAttemptID then
            return .again { st with
              pendingClaims := st.pendingClaims.insert dispatch.attemptID
                (st.pendingFor dispatch.attemptID ++ [claim]) }
          else dropDelivery st claim

/-- The message is that of an attempt of a task of the run. -/
structure Scheduler.Fits (st : Scheduler) (message : TaskMessage) (dispatch : TaskDispatch)
    (task : TaskRun) : Prop where
  decoded : decodeTaskDispatch message = .ok dispatch
  run : dispatch.runID = st.run.id
  topic : message.topic = taskTopic st.run.id
  id : message.id = dispatch.attemptID
  task : st.run.tasks.get? dispatch.taskID = some task
  taskRun : dispatch.taskRunID = taskRunIDFor st.run.id dispatch.taskID

/-- What becomes of a claim: sent back, refused, leased, kept waiting, or dropped. -/
theorem handleClaim_cases (config : EngineConfig) (st : Scheduler) (claim : WorkerClaim) :
    (st.isCurrent claim.slot claim.workerID = false ∧
      handleClaim config st claim = rejectStale st claim) ∨
    (st.isCurrent claim.slot claim.workerID = true ∧
      (∀ dispatch task, ¬st.Fits claim.delivery.message dispatch task) ∧
      ∃ operation cause, handleClaim config st claim = refuseDelivery st claim operation cause) ∨
    ∃ dispatch task, st.isCurrent claim.slot claim.workerID = true ∧
      st.Fits claim.delivery.message dispatch task ∧
      ((task.status = .ready ∧
          dispatch.attemptID = attemptIDFor task.taskRunID (task.attemptCount + 1) ∧
          handleClaim config st claim = leaseDelivered config st claim dispatch.taskID task) ∨
        (task.status = .running ∧ dispatch.attemptID = task.currentAttemptID ∧
          handleClaim config st claim = return .again { st with
            pendingClaims := st.pendingClaims.insert dispatch.attemptID
              (st.pendingFor dispatch.attemptID ++ [claim]) }) ∨
        (¬(task.status = .ready ∧
            dispatch.attemptID = attemptIDFor task.taskRunID (task.attemptCount + 1)) ∧
          ¬(task.status = .running ∧ dispatch.attemptID = task.currentAttemptID) ∧
          handleClaim config st claim = dropDelivery st claim)) := by
  cases hcurrent : st.isCurrent claim.slot claim.workerID with
  | false => exact .inl ⟨rfl, by simp [handleClaim, hcurrent]⟩
  | true =>
    right
    cases hdecode : decodeTaskDispatch claim.delivery.message with
    | error err =>
      refine .inl ⟨rfl, fun dispatch task hfits => ?_, "decode task delivery", some err,
        by simp [handleClaim, hcurrent, hdecode]⟩
      rw [hfits.decoded] at hdecode
      cases hdecode
    | ok dispatch =>
      -- any dispatch the message fits is the decoded one
      have hsame : ∀ {dispatch' task}, st.Fits claim.delivery.message dispatch' task →
          dispatch' = dispatch := by
        intro dispatch' task hfits
        rw [hfits.decoded] at hdecode
        exact Except.ok.inj hdecode
      by_cases hwrong : dispatch.runID ≠ st.run.id ∨
          claim.delivery.message.topic ≠ taskTopic st.run.id ∨
          claim.delivery.message.id ≠ dispatch.attemptID
      · refine .inl ⟨rfl, fun dispatch' task hfits => ?_, "decode task delivery", none,
          by simp [handleClaim, hcurrent, hdecode, hwrong]⟩
        rw [← hsame hfits] at hwrong
        rcases hwrong with hne | hne | hne
        · exact hne hfits.run
        · exact hne hfits.topic
        · exact hne hfits.id
      · cases htask : st.run.tasks.get? dispatch.taskID with
        | none =>
          refine .inl ⟨rfl, fun dispatch' task hfits => ?_, "validate task delivery", _,
            by simp only [handleClaim, hcurrent, hdecode, hwrong, htask]; rfl⟩
          have hsome := hfits.task
          rw [hsame hfits, htask] at hsome
          cases hsome
        | some task =>
          by_cases hrun : dispatch.taskRunID ≠ taskRunIDFor st.run.id dispatch.taskID
          · refine .inl ⟨rfl, fun dispatch' task' hfits => ?_, "validate task delivery", _,
              by simp only [handleClaim, hcurrent, hdecode, hwrong, htask, if_pos hrun]; rfl⟩
            rw [← hsame hfits] at hrun
            exact hrun hfits.taskRun
          · have hright := hwrong
            push Not at hright
            have hfits : st.Fits claim.delivery.message dispatch task :=
              ⟨hdecode, hright.1, hright.2.1, hright.2.2, htask, not_not.mp hrun⟩
            refine .inr ⟨dispatch, task, rfl, hfits, ?_⟩
            by_cases hnext : task.status = .ready ∧
                dispatch.attemptID = attemptIDFor task.taskRunID (task.attemptCount + 1)
            · refine .inl ⟨hnext.1, hnext.2, ?_⟩
              simp only [handleClaim, hcurrent, hdecode, hwrong, htask, if_neg hrun,
                if_pos hnext]
              rfl
            · right
              by_cases hrunning : task.status = .running ∧
                  dispatch.attemptID = task.currentAttemptID
              · refine .inl ⟨hrunning.1, hrunning.2, ?_⟩
                simp only [handleClaim, hcurrent, hdecode, hwrong, htask, if_neg hrun,
                  if_neg hnext, if_pos hrunning]
                rfl
              · refine .inr ⟨hnext, hrunning, ?_⟩
                simp only [handleClaim, hcurrent, hdecode, hwrong, htask, if_neg hrun,
                  if_neg hnext, if_neg hrunning]
                rfl

def handleHeartbeat (config : EngineConfig) (st : Scheduler) (workerID : WorkerID) : Round :=
  match st.workers.get? workerID with
  | none => return .again st
  | some slot =>
    if !st.isCurrent slot workerID then return .again st
    else do
      let now ← call .now
      match st.run.recordWorkerHeartbeat workerID config.leaseDuration now with
      | .error e => failWith st (ascii "record worker heartbeat: " ++ e.text)
      | .ok run =>
        match ← saveRun run "record worker heartbeat" with
        | .error err => abandon { st with run := run } err
        | .ok run =>
          match st.activeDeliveries.get? workerID with
          | none => return .again { st with run := run }
          | some delivery =>
            match ← call (.progress delivery) with
            | .ok _ => return .again { st with run := run }
            | .error err =>
              abandon { st with run := run } (brokerOperationError "extend task delivery" run.id
                delivery.message.id err.text)

def handleLost (config : EngineConfig) (st : Scheduler) (workerID : WorkerID) (slot : Nat) :
    Round :=
  if st.isCurrent slot workerID then do
    let st ← ({ st with
      activeDeliveries := st.activeDeliveries.erase workerID }).replaceWorker config workerID
    return .again st
  else return .again st

def handleBrokerError (st : Scheduler) (workerID : WorkerID) (slot : Nat) (err : GoString) :
    Round :=
  if !st.isCurrent slot workerID then return .again st
  else abandon st (brokerOperationError "receive task" st.run.id [] err)

def saveOutcome (st : Scheduler) (operation : String) : Round := do
  match ← saveRun st.run operation with
  | .error err => abandon st err
  | .ok run => return .again { st with run := run }

def recordOutcome (st : Scheduler) (result : BrokerTaskResult) : CompletionOutcome → Round
  | .ignored => return .again st
  | .succeeded => do
    let completed := st.completed.insert result.taskID ()
    let nows ← call .nows
    match markNewReady st.run st.run.definition completed nows with
    | (run, .error e) =>
      failWith { st with run := run, completed := completed }
        (ascii "unlock dependent tasks: " ++ e.text)
    | (run, .ok newReady) =>
      saveOutcome (({ st with run := run, completed := completed } : Scheduler).addReadyTasks
        newReady) "record completion and unlock dependencies"
  | .retryScheduled =>
    saveOutcome
      (if st.isReady result.taskID then
        st.addReady result.taskID (st.definitionOf result.taskID)
      else st) "schedule task retry"
  | .failed => saveOutcome st "record terminal task failure"

/-- The delivery of a recorded result and the claims that waited for it. -/
def settleResult (st : Scheduler) (result : BrokerTaskResult) (outcome : CompletionOutcome) :
    Round := do
  match ← acknowledgeDelivery st.run.id result.delivery with
  | some err => abandon st err
  | none =>
    match ← acknowledgePendingClaims st.run.id (st.pendingFor result.attemptID) with
    | some err => abandon st err
    | none =>
      if outcome = .failed then
        failWith (st.settlePending result.attemptID) (taskExecutionError st.run.id result.taskID
          ((result.err.map TaskError.text).getD []))
      else return .again (st.settlePending result.attemptID)

def handleResult (st : Scheduler) (result : BrokerTaskResult) : Round := do
  match ← call .contextErr with
  | some contextErr => cancelWith st contextErr
  | none =>
    let st := { st with
      activeDeliveries := st.activeDeliveries.erase result.workerID
      inFlight := st.inFlight.erase result.attemptID }
    let now ← call .now
    match st.run.completeTaskAttempt result.taskID result.taskRunID result.workerID
        result.attemptID result.output result.err now with
    | .error e => failWith st (ascii "record identified task completion: " ++ e.text)
    | .ok (run, outcome) =>
      Step.andThen (recordOutcome { st with run := run } result outcome) fun st =>
        settleResult st result outcome

def handleEvent (config : EngineConfig) (st : Scheduler) : SchedulerEvent → Round
  | .claim claim => handleClaim config st claim
  | .heartbeat workerID => handleHeartbeat config st workerID
  | .lost workerID slot => handleLost config st workerID slot
  | .brokerError workerID slot err => handleBrokerError st workerID slot err
  | .result result => handleResult st result
  | .timer => return .again st
  | .done err => cancelWith st err

def selectEvent (config : EngineConfig) (st : Scheduler) : Round := do
  let event ← call (.select st.run.nextReliabilityDeadline.2)
  handleEvent config st event

def schedulerRound (config : EngineConfig) (st : Scheduler) : Round :=
  Step.andThen (checkContext st) fun st =>
  Step.andThen (recoverLeases config st) fun st =>
  Step.andThen (completeWorkflow st) fun st =>
  Step.andThen (publishReadyTasks st) fun st =>
  Step.andThen (checkStalled st) fun st => selectEvent config st

/-! ## Entering the loop -/

def ending (outcome : Engine RunOutcome) : Round := do
  let outcome ← outcome
  return .done outcome

def saveEntry (st : Scheduler) (newReady : List TaskDefinition) : Round :=
  if newReady = [] then return .again st
  else do
    match ← saveRun st.run "make dependency-ready tasks schedulable" with
    | .error err => ending (failRun st.run err)
    | .ok run => return .again { st with run := run }

/-- The attempts that run when the loop is entered. -/
def runningAttempts (run : WorkflowRun) : KeyMap AttemptID Unit :=
  KeyMap.ofList ((run.sortedTasks.filter fun task =>
    task.status = .running && task.currentAttemptID ≠ []).map fun task =>
      (task.currentAttemptID, ()))

def executeBrokerRun (config : EngineConfig) (run : WorkflowRun)
    (handlers : KeyMap TaskID HandlerName) : Round := do
  let completed := completedTaskIDs run
  let st : Scheduler := { run := run, handlers := handlers, completed := completed, ready := ∅ }
  let st := st.addReadyTasks (existingReadyTasks run run.definition)
  let nows ← call .nows
  match markNewReady run run.definition completed nows with
  | (run, .error e) => ending (failRun run (ascii "prepare workflow run: " ++ e.text))
  | (run, .ok newReady) =>
    Step.andThen (saveEntry (({ st with run := run } : Scheduler).addReadyTasks newReady) newReady)
      fun st => do
        let st ← st.spawnWorkers config ((List.range config.workerCount).map (· + 1))
        return .again { st with inFlight := runningAttempts st.run }

def resolveHandlersLoop (config : EngineConfig) : List TaskDefinition →
    KeyMap TaskID HandlerName → Except GoString (KeyMap TaskID HandlerName)
  | [], resolved => .ok resolved
  | task :: rest, resolved =>
    if !config.registered task.handler then .error (unknownHandlerError task.id task.handler)
    else resolveHandlersLoop config rest (resolved.insert task.id task.handler)

def resolveHandlers (config : EngineConfig) (definition : WorkflowDefinition) :
    Except GoString (KeyMap TaskID HandlerName) :=
  resolveHandlersLoop config (sortTasks definition.tasks) ∅

def startRun (config : EngineConfig) (run : WorkflowRun) (handlers : KeyMap TaskID HandlerName) :
    Round := do
  match ← call .contextErr with
  | some contextErr => ending (cancelRun run contextErr)
  | none =>
    let now ← call .now
    match run.transitionWorkflow .running now with
    | .error e => return .done ⟨some run, some (ascii "start workflow run: " ++ e.text)⟩
    | .ok run =>
      match ← saveRun run "start workflow run" with
      | .error err => return .done ⟨some run, some err⟩
      | .ok run => executeBrokerRun config run handlers

def execute (config : EngineConfig) (runID : RunID) (definition : WorkflowDefinition) : Round := do
  let now ← call .now
  match newWorkflowRun runID definition now with
  | .error e => return .done ⟨none, some e.text⟩
  | .ok run =>
    match resolveHandlers config run.definition with
    | .error err => return .done ⟨none, some err⟩
    | .ok handlers =>
      match ← call (.saveWorkflow run.definition) with
      | .error err =>
        return .done ⟨none, some (persistenceError "save workflow definition" runID err)⟩
      | .ok _ =>
        let answer ← call (.createRun run.snapshot)
        match persisted run "create workflow run" answer with
        | .error err => return .done ⟨none, some err⟩
        | .ok run => startRun config run handlers

def finishRecovered (run : WorkflowRun) (status : WorkflowRunStatus) (cause : TaskError) :
    Round := do
  let now ← call .now
  let now' ← call .now
  match stopRun run status (some cause) now now' with
  | (run, .error e) =>
    return .done ⟨some run, some (ascii "finish recovered workflow run: " ++ e.text)⟩
  | (run, .ok _) =>
    match ← saveRun run "finish recovered workflow run" with
    | .error err => return .done ⟨some run, some err⟩
    | .ok run => return .done ⟨some run, none⟩

def resumeRun (config : EngineConfig) (run : WorkflowRun) (definition : WorkflowDefinition) :
    Round := do
  match ← call .contextErr with
  | some contextErr => ending (cancelRun run contextErr)
  | none =>
    match resolveHandlers config definition with
    | .error err => return .done ⟨some run, some err⟩
    | .ok handlers => executeBrokerRun config run handlers

def recoverRun (config : EngineConfig) (run : WorkflowRun) (definition : WorkflowDefinition) :
    Round :=
  if run.status.terminal then return .done ⟨some run, none⟩
  else match recoveredTerminalTaskState run with
    | some (status, cause) => finishRecovered run status cause
    | none =>
      if run.status = .pending then do
        let now ← call .now
        match run.transitionWorkflow .running now with
        | .error e =>
          return .done ⟨some run, some (ascii "start recovered workflow run: " ++ e.text)⟩
        | .ok run =>
          match ← saveRun run "start recovered workflow run" with
          | .error err => return .done ⟨some run, some err⟩
          | .ok run => resumeRun config run definition
      else resumeRun config run definition

/-- `Recover`; the name avoids the lease operation of the aggregate. -/
def recoverEngine (config : EngineConfig) (runID : RunID) : Round :=
  if !validRunID runID then return .done ⟨none, some (RunError.invalidRunID runID).text⟩
  else do
    match ← call (.loadRun runID) with
    | .error err => return .done ⟨none, some (persistenceError "load workflow run" runID err)⟩
    | .ok none => return .done ⟨none, some (runNotFoundError runID)⟩
    | .ok (some snapshot) =>
      match ← call (.loadWorkflow snapshot.workflowID) with
      | .error err =>
        return .done ⟨none, some (persistenceError "load workflow definition" runID err)⟩
      | .ok none => return .done ⟨none, some (workflowNotFoundError snapshot.workflowID)⟩
      | .ok (some definition) =>
        match restoreWorkflowRun snapshot definition with
        | .error e =>
          return .done ⟨none, some (describe [("restore workflow run ", runID)] ": " ++ e.text)⟩
        | .ok run => recoverRun config run definition

end ForgeFlow.Execution
