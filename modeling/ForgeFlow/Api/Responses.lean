import ForgeFlow.Execution.Errors
import ForgeFlow.Persistence.FileStore

/-!
# Error responses of the API

How the errors of the store and of a request are turned into the envelope of an
API failure, and what the handlers share.
-/

namespace ForgeFlow.Api

open ForgeFlow.Base ForgeFlow.Workflow ForgeFlow.Execution ForgeFlow.Security
  ForgeFlow.Persistence

structure APIError where
  status : Nat
  code : GoString
  message : GoString
  field : GoString
  deriving DecidableEq

def apiError (status : Nat) (code message field : String) : APIError :=
  ⟨status, ascii code, ascii message, ascii field⟩

/-- `writeStoreError` -/
def storeErrorResponse : StoreError → APIError
  | .wrapped _ cause => storeErrorResponse cause
  | .workflowConflict id =>
    ⟨409, ascii "workflow_conflict", ascii "workflow definition " ++ quote id ++
      ascii " already exists with different content", ascii "id"⟩
  | .runAlreadyExists id =>
    ⟨409, ascii "run_exists", ascii "workflow run " ++ quote id ++ ascii " already exists",
      ascii "run_id"⟩
  | .workflowOwnershipConflict id =>
    ⟨409, ascii "workflow_ownership_conflict",
      ascii "workflow " ++ quote id ++ ascii " already has different ownership", ascii "id"⟩
  | .userDisabled id =>
    ⟨403, ascii "user_disabled", ascii "user " ++ quote id ++ ascii " is disabled", []⟩
  | .message text =>
    if text = ascii "context deadline exceeded" then
      apiError 408 "request_timeout" "request deadline expired" ""
    else if text = ascii "context canceled" then
      apiError 408 "request_canceled" "request was canceled" ""
    else apiError 500 "internal_error" "durable state operation failed" ""
  | _ => apiError 500 "internal_error" "durable state operation failed" ""

/-- `writeRequestOrStoreError` -/
def requestOrStoreErrorResponse : StoreError → APIError
  | .wrapped _ cause => requestOrStoreErrorResponse cause
  | .projectNotFound id =>
    ⟨404, ascii "project_not_found", ascii "project " ++ quote id ++ ascii " was not found",
      ascii "project_id"⟩
  | .auditEventAlreadyExists id =>
    ⟨409, ascii "audit_conflict", ascii "audit event " ++ quote id ++ ascii " already exists", []⟩
  | e => storeErrorResponse e

/-- The errors `writeRequestError` tells apart. -/
inductive RequestError where
  | validation (cause : ValidationError)
  | request (field message : GoString)
  | unknownHandler (taskID : TaskID) (handler : HandlerName)
  | run (cause : RunError)
  deriving DecidableEq

def validationCodeText : ValidationCode → String
  | .invalidWorkflowID => "invalid_workflow_id"
  | .emptyWorkflow => "empty_workflow"
  | .invalidTaskID => "invalid_task_id"
  | .invalidTaskName => "invalid_task_name"
  | .duplicateTaskID => "duplicate_task_id"
  | .invalidDependencyID => "invalid_dependency_id"
  | .missingDependency => "missing_dependency"
  | .selfDependency => "self_dependency"
  | .duplicateDependency => "duplicate_dependency"
  | .cycle => "cycle"
  | .unknownCompletedTask => "unknown_completed_task"
  | .invalidRetryPolicy => "invalid_retry_policy"

/-- `writeRequestError` -/
def requestErrorResponse : RequestError → APIError
  | .validation e | .run (.invalidDefinition e) =>
    ⟨422, ascii (validationCodeText e.code), e.text, []⟩
  | .request field message => ⟨422, ascii "invalid_request", message, field⟩
  | .unknownHandler taskID handler =>
    ⟨422, ascii "unknown_handler", unknownHandlerError taskID handler, ascii "handler"⟩
  | .run (.invalidRunID runID) =>
    ⟨400, ascii "invalid_run_id", (RunError.invalidRunID runID).text, ascii "run_id"⟩
  | .run e => ⟨400, ascii "invalid_request", e.text, []⟩

def validResourceID (identifier : GoString) : Bool :=
  identifier ≠ [] && (runes identifier).all fun c =>
    (0x61 ≤ c && c ≤ 0x7A) || (0x41 ≤ c && c ≤ 0x5A) || (0x30 ≤ c && c ≤ 0x39) ||
      c = 0x2E || c = 0x5F || c = 0x7E || c = 0x2D

def newAuditEvent (projectID : ProjectID) (actor : UserID) (action resourceType : String)
    (resourceID : GoString) (metadata : KeyMap GoString GoString) (now : Int)
    (randomID : GoString) : AuditEvent where
  id := ascii "audit-" ++ randomID
  projectID := projectID
  actorUserID := actor
  action := ascii action
  resourceType := ascii resourceType
  resourceID := resourceID
  occurredAt := now
  metadata := metadata

/-- A mutation with the append that goes with it. -/
def commit (store : FileStore) (m : Mutation) (appendError : Option GoString) :
    Except StoreError FileStore :=
  match store.prepare m, appendError with
  | .error e, _ => .error e
  | .ok none, _ => .ok store
  | .ok (some _), some text => .error (.message text)
  | .ok (some c), none => .ok c.next

theorem commit_ok {s s' : FileStore} {m : Mutation} {e : Option GoString}
    (h : commit s m e = .ok s') :
    s.prepare m = .ok none ∧ s' = s ∨ ∃ c, s.prepare m = .ok (some c) ∧ s' = c.next := by
  unfold commit at h
  split at h
  · cases h
  · rename_i hprepare
    cases h
    exact .inl ⟨hprepare, rfl⟩
  · cases h
  · rename_i c hprepare
    cases h
    exact .inr ⟨c, hprepare, rfl⟩

end ForgeFlow.Api
