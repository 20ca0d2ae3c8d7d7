import ForgeFlow.Api.Members
import ForgeFlow.Api.RunEvents

/-!
# The handlers of the API

A request that has been authenticated and admitted, handled in one go. A handler
reads the store and comes to an error or to the action it takes: to answer, to
change the store, to start or cancel a run, or to stream events.
-/

namespace ForgeFlow.Api

open ForgeFlow.Base ForgeFlow.Workflow ForgeFlow.Execution ForgeFlow.Security
  ForgeFlow.Persistence

/-! ## The run manager -/

/-- The active runs, each with whether its context has been canceled. -/
structure RunManager where
  active : KeyMap RunID Bool := ∅
  closed : Bool := false
  deriving DecidableEq

inductive ManagerError where
  | runAlreadyActive
  | managerClosed
  deriving DecidableEq

namespace RunManager

def start (manager : RunManager) (runID : RunID) : Except ManagerError RunManager :=
  (firstError [
    (manager.closed, .managerClosed),
    (manager.active.contains runID, .runAlreadyActive)]).bind fun _ =>
  .ok { manager with active := manager.active.insert runID false }

/-- Cancel the context of an active run, and whether there was one. -/
def cancel (manager : RunManager) (runID : RunID) : Bool × RunManager :=
  if manager.active.contains runID then
    (true, { manager with active := manager.active.insert runID true })
  else (false, manager)

end RunManager

structure ApiServer where
  store : FileStore := {}
  broker : EventBroker := {}
  manager : RunManager := {}
  registered : HandlerName → Bool

/-! ## Responses -/

structure TaskResponse where
  id : TaskID
  name : GoString
  dependencies : List TaskID
  handler : HandlerName
  input : GoString
  maxAttempts : Int
  initialBackoff : Int
  maxBackoff : Int
  deriving DecidableEq

structure WorkflowResponse where
  id : WorkflowID
  projectID : ProjectID
  ownerUserID : UserID
  tasks : List TaskResponse
  deriving DecidableEq

def taskResponse (task : TaskDefinition) : TaskResponse where
  id := task.id
  name := task.name
  dependencies := sortTaskIDs task.dependencies.elems
  handler := task.handler
  input := task.input
  maxAttempts := task.retry.effectiveMaxAttempts
  initialBackoff := task.retry.initialBackoff
  maxBackoff := task.retry.maxBackoff

def workflowDTO (definition : WorkflowDefinition) (ownership : WorkflowOwnership) :
    WorkflowResponse where
  id := definition.id
  projectID := ownership.projectID
  ownerUserID := ownership.ownerUserID
  tasks := (sortTasks definition.tasks).map taskResponse

structure TaskCounts where
  pending : Nat
  ready : Nat
  running : Nat
  retryWaiting : Nat
  succeeded : Nat
  failed : Nat
  canceled : Nat
  deriving DecidableEq

def taskCounts (tasks : List TaskRun) : TaskCounts :=
  let count (status : TaskRunStatus) := tasks.countP fun task => task.status = status
  ⟨count .pending, count .ready, count .running, count .retryWaiting, count .succeeded,
    count .failed, count .canceled⟩

structure RunResponse where
  id : RunID
  workflowID : WorkflowID
  version : Nat
  status : WorkflowRunStatus
  createdAt : Int
  updatedAt : Int
  tasks : TaskCounts
  deriving DecidableEq

def runDTO (snapshot : WorkflowRunSnapshot) : RunResponse where
  id := snapshot.id
  workflowID := snapshot.workflowID
  version := snapshot.version
  status := snapshot.status
  createdAt := snapshot.createdAt
  updatedAt := snapshot.updatedAt
  tasks := taskCounts snapshot.tasks

structure LeaseResponse where
  workerID : WorkerID
  attemptID : AttemptID
  expiresAt : Int
  deriving DecidableEq

structure TaskRunResponse where
  taskID : TaskID
  taskRunID : TaskRunID
  status : TaskRunStatus
  output : GoString
  error : GoString
  attemptCount : Int
  currentAttemptID : AttemptID
  nextAttemptAt : Option Int
  lease : Option LeaseResponse
  updatedAt : Int
  startedAt : Option Int
  finishedAt : Option Int
  deriving DecidableEq

/-- The zero time is not shown. -/
def optionalTime (value : Int) : Option Int := if value = 0 then none else some value

def taskRunResponse (task : TaskRun) : TaskRunResponse where
  taskID := task.taskID
  taskRunID := task.taskRunID
  status := task.status
  output := task.output
  error := task.error
  attemptCount := task.attemptCount
  currentAttemptID := task.currentAttemptID
  nextAttemptAt := optionalTime task.nextAttemptAt
  lease := task.lease.map fun lease => ⟨lease.workerID, lease.attemptID, lease.expiresAt⟩
  updatedAt := task.updatedAt
  startedAt := optionalTime task.startedAt
  finishedAt := optionalTime task.finishedAt

def taskRunsDTO (snapshot : WorkflowRunSnapshot) : List TaskRunResponse :=
  (snapshot.tasks.insertionSort fun left right => left.taskID ≤ right.taskID).map taskRunResponse

/-- What a successful response is about. -/
inductive Content where
  | project (project : Project)
  | membership (membership : Membership)
  | memberships (memberships : List Membership)
  | auditEvents (events : List AuditEvent)
  | workflow (response : WorkflowResponse)
  | run (response : RunResponse)
  | tasks (runID : RunID) (tasks : List TaskRunResponse)
  | cancellation (runID : RunID)
  | events (runID : RunID) (events : List RunEvent)
  deriving DecidableEq

inductive Reply where
  | failed (error : APIError)
  | ok (status : Nat) (content : Content)
  deriving DecidableEq

/-! ## Requests -/

structure Principal where
  userID : UserID
  displayName : GoString
  deriving DecidableEq

inductive Method where
  | get
  | post
  | put
  | patch
  | other
  deriving DecidableEq

/-- A task as it is submitted; a duration that cannot be read is `none`. -/
structure TaskPayload where
  id : TaskID
  name : GoString
  dependencies : List TaskID
  handler : HandlerName
  input : GoString
  maxAttempts : Int
  initialBackoff : Option Int
  maxBackoff : Option Int

structure WorkflowPayload where
  id : WorkflowID
  projectID : ProjectID
  tasks : List TaskPayload

structure ProjectPayload where
  id : ProjectID
  name : GoString

structure MembershipPayload where
  displayName : GoString
  role : Role

/-- What a body was decoded to, or the response to a body that cannot be decoded. -/
abbrev Body := Except APIError

/-- A route with the values of its path and what came with the request. An empty
run ID stands for one the server makes up, a `Last-Event-ID` that is no number is
`none`. -/
inductive Route where
  | projects (body : Body ProjectPayload)
  | project (projectID : ProjectID) (newName : Body GoString)
  | projectMembers (projectID : ProjectID)
  | projectMember (projectID : ProjectID) (userID : UserID) (body : Body MembershipPayload)
  | projectAuditEvents (projectID : ProjectID)
  | workflows (body : Body WorkflowPayload)
  | workflow (workflowID : WorkflowID)
  | workflowRuns (workflowID : WorkflowID) (newRunID : Body RunID)
  | run (runID : RunID)
  | runTasks (runID : RunID)
  | runCancellation (runID : RunID)
  | runRetry (runID : RunID) (newRunID : Body RunID)
  | runEvents (runID : RunID) (lastEventID : Option Nat)

/-- What a request meets besides the server's state: its context, the clock, random
bytes, the error of the journal append, if any, whether its response can be flushed,
and for a stream the broker as its later passes find it. -/
structure Surroundings where
  ctx : ContextState := .live
  now : Int := 0
  randomID : Option GoString := none
  appendError : Option GoString := none
  flusher : Bool := true
  later : List EventBroker := []

/-- What a handler does once nothing is left to be refused before it. -/
inductive Action where
  | reply (status : Nat) (content : Content)
  | mutate (m : Mutation) (refused : StoreError → APIError) (status : Nat) (content : Content)
  | startRun (run : WorkflowRun) (refused : ManagerError → APIError)
  | cancelRun (runID : RunID)
  | streamEvents (snapshot : WorkflowRunSnapshot) (sequence : Nat)

/-! ## Reading the store -/

section

variable (store : FileStore) (ctx : ContextState)

/-- A read fails only when the context is done. -/
def reading {α : Type} (ctx : ContextState) (value : α) : Except APIError α :=
  ((contextError ctx).mapError storeErrorResponse).map fun _ => value

def loadWorkflow (workflowID : WorkflowID) : Except APIError (Option WorkflowDefinition) :=
  reading ctx ((store.workflows.get? workflowID).map cloneDefinition)

def authorizeProject (principal : Principal) (projectID : ProjectID) (permission : Permission) :
    Except APIError Unit := do
  let user ← reading ctx (store.users.get? principal.userID)
  let user ← required user (apiError 403 "forbidden" "authenticated user is not provisioned" "")
  firstError [(user.disabled, apiError 403 "user_disabled" "authenticated user is disabled" "")]
  let membership ← reading ctx (store.membership? projectID principal.userID)
  let membership ← required membership
    (apiError 404 "project_not_found" "project was not found" "project_id")
  firstError [(!membership.role.allows permission,
    apiError 403 "forbidden" "project role does not allow this operation" "")]

def requestProjectID (projectID : ProjectID) : Except APIError Unit :=
  firstError [(!validResourceID projectID,
    apiError 400 "invalid_project_id" "project ID is invalid" "projectID")]

/-- A workflow that is there and owned, for a principal with the permission. -/
def loadOwnedWorkflow (principal : Principal) (workflowID : WorkflowID) (permission : Permission) :
    Except APIError (WorkflowDefinition × WorkflowOwnership) := do
  let notFound := apiError 404 "workflow_not_found" "workflow was not found" "id"
  firstError [(!validResourceID workflowID,
    apiError 400 "invalid_workflow_id" "workflow ID is invalid" "id")]
  let definition ← required (← loadWorkflow store ctx workflowID) notFound
  let ownership ← required (← reading ctx (store.ownerships.get? workflowID)) notFound
  authorizeProject store ctx principal ownership.projectID permission
  return (definition, ownership)

def loadRun (principal : Principal) (runID : RunID) (permission : Permission) :
    Except APIError WorkflowRunSnapshot := do
  let notFound := apiError 404 "run_not_found" "workflow run was not found" "runID"
  firstError [(!validResourceID runID, apiError 400 "invalid_run_id" "run ID is invalid" "runID")]
  let snapshot ← required (← reading ctx (store.runs.get? runID)) notFound
  let ownership ← required (← reading ctx (store.ownerships.get? snapshot.workflowID)) notFound
  authorizeProject store ctx principal ownership.projectID permission
  return snapshot

end

def requireMethod (method allowed : Method) : Except APIError Unit :=
  firstError [(method ≠ allowed,
    apiError 405 "method_not_allowed" "HTTP method is not allowed for this route" "")]

/-! ## Projects -/

section

variable (store : FileStore) (env : Surroundings) (principal : Principal) (method : Method)

def auditIdentity : Except APIError GoString :=
  required env.randomID (apiError 500 "internal_error" "could not create audit identity" "")

/-- `CreateProject` refused. -/
def projectRefused : StoreError → APIError
  | .wrapped _ cause => projectRefused cause
  | .projectAlreadyExists id =>
    ⟨409, ascii "project_exists", ascii "project " ++ quote id ++ ascii " already exists",
      ascii "id"⟩
  | e => requestOrStoreErrorResponse e

def handleProjects (body : Body ProjectPayload) : Except APIError Action := do
  requireMethod method .post
  let payload ← body
  firstError [(!validResourceID payload.id,
    apiError 422 "invalid_project_id" "project ID is invalid" "id")]
  let existing ← reading env.ctx (store.users.get? principal.userID)
  firstError [(existing.any User.disabled,
    apiError 403 "user_disabled" "authenticated user is disabled" "")]
  let user := existing.getD ⟨principal.userID, principal.displayName, false, env.now⟩
  let project : Project := ⟨payload.id, payload.name, principal.userID, env.now, env.now⟩
  let randomID ← auditIdentity env
  user.validate.mapError fun e => ⟨422, ascii "invalid_user", e, []⟩
  project.validate.mapError fun e => ⟨422, ascii "invalid_project", e, ascii "name"⟩
  return .mutate
    (.createProject env.ctx user project ⟨project.id, principal.userID, .admin, env.now, env.now⟩
      (newAuditEvent project.id principal.userID "project.created" "project" payload.id ∅ env.now
        randomID))
    projectRefused 201 (.project project)

def loadProject (projectID : ProjectID) : Except APIError Project := do
  required (← reading env.ctx (store.projects.get? projectID))
    (apiError 404 "project_not_found" "project was not found" "project_id")

def updateProject (projectID : ProjectID) (newName : Body GoString) : Except APIError Action := do
  authorizeProject store env.ctx principal projectID .projectManage
  let name ← newName
  let old ← loadProject store env projectID
  let project := { old with name := name, updatedAt := env.now }
  let randomID ← auditIdentity env
  project.validate.mapError fun e => ⟨422, ascii "invalid_project", e, ascii "name"⟩
  return .mutate
    (.saveProject env.ctx project
      (newAuditEvent projectID principal.userID "project.updated" "project" projectID
        (KeyMap.ofList [(ascii "old_name", old.name), (ascii "new_name", name)]) env.now randomID))
    requestOrStoreErrorResponse 200 (.project project)

def handleProject (projectID : ProjectID) (newName : Body GoString) : Except APIError Action := do
  requestProjectID projectID
  match method with
  | .get =>
    authorizeProject store env.ctx principal projectID .projectRead
    return .reply 200 (.project (← loadProject store env projectID))
  | .patch => updateProject store env principal projectID newName
  | _ => .error (apiError 405 "method_not_allowed" "HTTP method is not allowed for this route" "")

def handleProjectMembers (projectID : ProjectID) : Except APIError Action := do
  requireMethod method .get
  requestProjectID projectID
  authorizeProject store env.ctx principal projectID .projectManage
  let memberships ← reading env.ctx ((store.membersOf projectID).values.insertionSort
    fun left right => left.userID ≤ right.userID)
  return .reply 200 (.memberships memberships)

/-- The last admin is not to become something else. -/
def retainAdmin (projectID : ProjectID) (existing : Option Membership) (role : Role) :
    Except APIError Unit :=
  firstError [((existing.any fun m => m.role = .admin) && role ≠ .admin &&
    MemberRequest.admins store projectID = 1,
    apiError 409 "last_admin" "a project must retain at least one admin" "role")]

def handleProjectMember (projectID : ProjectID) (userID : UserID) (body : Body MembershipPayload) :
    Except APIError Action := do
  requireMethod method .put
  requestProjectID projectID
  authorizeProject store env.ctx principal projectID .projectManage
  firstError [(!plainIdentifier userID, apiError 400 "invalid_user_id" "user ID is invalid" "userID")]
  let payload ← body
  payload.role.validate.mapError fun e => ⟨422, ascii "invalid_role", e, ascii "role"⟩
  let existing ← reading env.ctx (store.membership? projectID userID)
  retainAdmin store projectID existing payload.role
  let request : MemberRequest :=
    ⟨principal.userID, projectID, userID, payload.displayName, payload.role⟩
  let randomID ← auditIdentity env
  (User.mk userID payload.displayName false env.now).validate.mapError fun e =>
    ⟨422, ascii "invalid_user", e, ascii "display_name"⟩
  return .mutate (request.putCall { ctx := env.ctx } randomID env.now existing)
    requestOrStoreErrorResponse (if existing.isSome then 200 else 201)
    (.membership (request.newMembership env.now existing))

/-- The newest hundred events come first. -/
def handleProjectAuditEvents (projectID : ProjectID) : Except APIError Action := do
  requireMethod method .get
  requestProjectID projectID
  authorizeProject store env.ctx principal projectID .auditRead
  let events ← reading env.ctx (((store.auditEvents.get? projectID).getD []).reverse.take 100)
  return .reply 200 (.auditEvents events)

end

/-! ## Workflows -/

def durationField (index : Nat) (name : String) (value : Option Int) : Except RequestError Int :=
  let field := ascii "tasks[" ++ formatNat index ++ ascii "].retry." ++ ascii name
  required value (.request field (field ++ ascii " must be a valid Go duration"))

def taskDefinition (index : Nat) (task : TaskPayload) : Except RequestError TaskDefinition := do
  let initialBackoff ← durationField index "initial_backoff" task.initialBackoff
  let maxBackoff ← durationField index "max_backoff" task.maxBackoff
  return ⟨task.id, task.name, .of task.dependencies, task.handler, task.input,
    ⟨task.maxAttempts, initialBackoff, maxBackoff⟩⟩

def taskDefinitions : Nat → List TaskPayload → Except RequestError (List TaskDefinition)
  | _, [] => return []
  | index, task :: rest => do
    let definition ← taskDefinition index task
    return definition :: (← taskDefinitions (index + 1) rest)

/-- `WorkflowRequest.definition` -/
def WorkflowPayload.definition (payload : WorkflowPayload) :
    Except RequestError WorkflowDefinition := do
  return ⟨payload.id, ← taskDefinitions 0 payload.tasks⟩

def validateHandlersLoop (registered : HandlerName → Bool) :
    Nat → List TaskDefinition → Except RequestError Unit
  | _, [] => return ()
  | index, task :: rest => do
    firstError [
      (!plainIdentifier task.handler, .request (ascii "tasks[" ++ formatNat index ++ ascii "].handler")
        (ascii "handler must be a non-empty identifier")),
      (!registered task.handler, .unknownHandler task.id task.handler)]
    validateHandlersLoop registered (index + 1) rest

def validateHandlers (registered : HandlerName → Bool) (definition : WorkflowDefinition) :
    Except APIError Unit :=
  (validateHandlersLoop registered 0 definition.tasks).mapError requestErrorResponse

section

variable (store : FileStore) (registered : HandlerName → Bool) (env : Surroundings)
  (principal : Principal) (method : Method)

def handleWorkflows (body : Body WorkflowPayload) : Except APIError Action := do
  requireMethod method .post
  let payload ← body
  let definition ← payload.definition.mapError requestErrorResponse
  firstError [(!validResourceID definition.id, apiError 422 "invalid_workflow_id"
    "workflow ID may contain only letters, digits, dot, underscore, tilde, and hyphen" "id")]
  definition.validate.mapError fun e => requestErrorResponse (.validation e)
  validateHandlers registered definition
  firstError [(!validResourceID payload.projectID,
    apiError 422 "invalid_project_id" "project ID is invalid" "project_id")]
  authorizeProject store env.ctx principal payload.projectID .workflowWrite
  let existing ← loadWorkflow store env.ctx definition.id
  firstError [(existing.isSome,
    apiError 409 "workflow_exists" "workflow already exists" "id")]
  let ownership : WorkflowOwnership :=
    ⟨definition.id, payload.projectID, principal.userID, env.now⟩
  return .mutate (.saveWorkflowForProject env.ctx definition ownership) storeErrorResponse 201
    (.workflow (workflowDTO definition ownership))

def handleWorkflow (workflowID : WorkflowID) : Except APIError Action := do
  requireMethod method .get
  let (definition, ownership) ← loadOwnedWorkflow store env.ctx principal workflowID .projectRead
  return .reply 200 (.workflow (workflowDTO definition ownership))

/-- The run ID that was asked for, or a new one. -/
def chosenRunID (asked : RunID) : Except APIError RunID :=
  if asked = [] then
    required (env.randomID.map fun id => ascii "run-" ++ id)
      (apiError 500 "internal_error" "could not generate a workflow run ID" "")
  else .ok asked

def newRun (definition : WorkflowDefinition) (newRunID : Body RunID) :
    Except APIError WorkflowRun := do
  let asked ← newRunID
  let runID ← chosenRunID env asked
  firstError [(!validResourceID runID, apiError 400 "invalid_run_id" "run ID is invalid" "run_id")]
  (newWorkflowRun runID definition env.now).mapError fun e => requestErrorResponse (.run e)

def startRefused : ManagerError → APIError
  | .managerClosed => apiError 503 "not_ready" "ForgeFlow is shutting down" ""
  | .runAlreadyActive => apiError 409 "run_active" "workflow run is already active" "run_id"

def handleWorkflowRuns (workflowID : WorkflowID) (newRunID : Body RunID) :
    Except APIError Action := do
  requireMethod method .post
  let (definition, _) ← loadOwnedWorkflow store env.ctx principal workflowID .runStart
  validateHandlers registered definition
  return .startRun (← newRun env definition newRunID) startRefused

/-! ## Runs -/

def handleRun (runID : RunID) : Except APIError Action := do
  requireMethod method .get
  let snapshot ← loadRun store env.ctx principal runID .runRead
  return .reply 200 (.run (runDTO snapshot))

def handleRunTasks (runID : RunID) : Except APIError Action := do
  requireMethod method .get
  let snapshot ← loadRun store env.ctx principal runID .taskRead
  return .reply 200 (.tasks snapshot.id (taskRunsDTO snapshot))

def handleRunCancellation (runID : RunID) : Except APIError Action := do
  requireMethod method .post
  let snapshot ← loadRun store env.ctx principal runID .runOperate
  firstError [(snapshot.status.terminal,
    apiError 409 "run_finished" "workflow run is already finished" "runID")]
  return .cancelRun snapshot.id

def handleRunRetry (runID : RunID) (newRunID : Body RunID) : Except APIError Action := do
  requireMethod method .post
  let source ← loadRun store env.ctx principal runID .runOperate
  firstError [(source.status ≠ .failed && source.status ≠ .canceled,
    apiError 409 "run_not_retryable" "only failed or canceled runs can be retried" "runID")]
  let definition ← required (← loadWorkflow store env.ctx source.workflowID)
    (apiError 404 "workflow_not_found" "workflow was not found" "")
  return .startRun (← newRun env definition newRunID) fun _ =>
    apiError 503 "not_ready" "workflow retry cannot start" ""

def handleRunEvents (runID : RunID) (lastEventID : Option Nat) : Except APIError Action := do
  requireMethod method .get
  let snapshot ← loadRun store env.ctx principal runID .runRead
  let sequence ← required lastEventID (apiError 400 "invalid_last_event_id"
    "Last-Event-ID must be a non-negative integer" "Last-Event-ID")
  firstError [(!env.flusher,
    apiError 500 "streaming_unsupported" "HTTP streaming is unavailable" "")]
  return .streamEvents snapshot sequence

end

/-! ## Handling a request -/

namespace ApiServer

/-- What the handler of the route comes to. -/
def plan (server : ApiServer) (env : Surroundings) (principal : Principal) (method : Method) :
    Route → Except APIError Action
  | .projects body => handleProjects server.store env principal method body
  | .project projectID newName => handleProject server.store env principal method projectID newName
  | .projectMembers projectID => handleProjectMembers server.store env principal method projectID
  | .projectMember projectID userID body =>
    handleProjectMember server.store env principal method projectID userID body
  | .projectAuditEvents projectID =>
    handleProjectAuditEvents server.store env principal method projectID
  | .workflows body => handleWorkflows server.store server.registered env principal method body
  | .workflow workflowID => handleWorkflow server.store env principal method workflowID
  | .workflowRuns workflowID newRunID =>
    handleWorkflowRuns server.store server.registered env principal method workflowID newRunID
  | .run runID => handleRun server.store env principal method runID
  | .runTasks runID => handleRunTasks server.store env principal method runID
  | .runCancellation runID => handleRunCancellation server.store env principal method runID
  | .runRetry runID newRunID => handleRunRetry server.store env principal method runID newRunID
  | .runEvents runID lastEventID => handleRunEvents server.store env principal method runID lastEventID

/-- `manager.cancel`, and `manager.start` before it for a run that is not active. -/
def cancelRun (server : ApiServer) (runID : RunID) : Reply × ApiServer :=
  let accepted := Reply.ok 202 (.cancellation runID)
  match server.manager.cancel runID with
  | (true, manager) => (accepted, { server with manager := manager })
  | (false, manager) =>
    match manager.start runID with
    | .error .managerClosed => (.failed (apiError 503 "not_ready"
        "workflow run cannot be canceled while ForgeFlow is shutting down" ""), server)
    | .error .runAlreadyActive =>
      (accepted, { server with manager := (manager.cancel runID).2 })
    | .ok manager => (accepted, { server with manager := (manager.cancel runID).2 })

/-- `CreateRun` through the observed store, then `manager.start`. -/
def startRun (server : ApiServer) (env : Surroundings) (run : WorkflowRun)
    (refused : ManagerError → APIError) : Reply × ApiServer :=
  match commit server.store (.createRun env.ctx env.ctx run.snapshot) env.appendError with
  | .error e => (.failed (storeErrorResponse e), server)
  | .ok store =>
    let stored := { run.snapshot with version := 1 }
    let server := { server with store := store, broker := server.broker.observe stored }
    match server.manager.start run.id with
    | .error e => (.failed (refused e), server)
    | .ok manager => (.ok 202 (.run (runDTO stored)), { server with manager := manager })

def perform (server : ApiServer) (env : Surroundings) : Action → Reply × ApiServer
  | .reply status content => (.ok status content, server)
  | .mutate m refused status content =>
    match commit server.store m env.appendError with
    | .error e => (.failed (refused e), server)
    | .ok store => (.ok status content, { server with store := store })
  | .startRun run refused => server.startRun env run refused
  | .cancelRun runID => server.cancelRun runID
  | .streamEvents snapshot sequence =>
    let broker := server.broker.seed snapshot
    (.ok 200 (.events snapshot.id (streamedEvents snapshot.id (broker :: env.later) sequence)),
      { server with broker := broker })

def handle (server : ApiServer) (env : Surroundings) (principal : Principal) (method : Method)
    (route : Route) : Reply × ApiServer :=
  match server.plan env principal method route with
  | .error e => (.failed e, server)
  | .ok action => server.perform env action

end ApiServer

end ForgeFlow.Api
