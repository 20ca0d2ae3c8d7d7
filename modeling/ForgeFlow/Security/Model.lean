import ForgeFlow.Workflow.Graph

/-!
# Users, projects, memberships and audit events

The records of `security/model.go` and their checks. A check returns the message
of its error.
-/

namespace ForgeFlow.Security

open ForgeFlow.Base ForgeFlow.Workflow

abbrev UserID := GoString
abbrev ProjectID := GoString
abbrev AuditEventID := GoString

/-- A role is stored as a string; `other` is a string that names no role. -/
inductive Role where
  | member
  | operator
  | admin
  | other (text : GoString)
  deriving DecidableEq

inductive Permission where
  | projectRead
  | workflowWrite
  | runStart
  | runRead
  | taskRead
  | runOperate
  | projectManage
  | auditRead
  deriving DecidableEq

namespace Role

def text : Role → GoString
  | member => ascii "member"
  | operator => ascii "operator"
  | admin => ascii "admin"
  | other t => t

def memberAllows (permission : Permission) : Bool :=
  permission = .projectRead || permission = .workflowWrite || permission = .runStart ||
    permission = .runRead

def operatorAllows (permission : Permission) : Bool :=
  memberAllows permission || permission = .taskRead || permission = .runOperate

def allows (role : Role) (permission : Permission) : Bool :=
  match role with
  | member => memberAllows permission
  | operator => operatorAllows permission
  | admin => operatorAllows permission || permission = .projectManage || permission = .auditRead
  | other _ => false

def validate (role : Role) : Except GoString Unit :=
  firstError [(role ≠ .member && role ≠ .operator && role ≠ .admin,
    ascii "invalid project role " ++ quote role.text)]

end Role

def maxIdentifierLength : Nat := 256

def maxNameLength : Nat := 200

def validIdentifier (value : GoString) : Bool :=
  plainIdentifier value && value.length ≤ maxIdentifierLength

def validName (value : GoString) : Bool :=
  let trimmed := trimSpace value
  trimmed ≠ [] && trimmed.length ≤ maxNameLength

structure User where
  id : UserID
  displayName : GoString
  disabled : Bool
  createdAt : Int
  deriving DecidableEq

def User.validate (user : User) : Except GoString Unit :=
  firstError [
    (!validIdentifier user.id, ascii "invalid user ID " ++ quote user.id),
    (!validName user.displayName, ascii "invalid display name for user " ++ quote user.id),
    (user.createdAt = 0, ascii "user " ++ quote user.id ++ ascii " has no creation timestamp")]

theorem User.validate_ok_iff (user : User) : user.validate = .ok () ↔
    validIdentifier user.id = true ∧ validName user.displayName = true ∧ user.createdAt ≠ 0 := by
  simp [User.validate]

structure Project where
  id : ProjectID
  name : GoString
  createdBy : UserID
  createdAt : Int
  updatedAt : Int
  deriving DecidableEq

def Project.validate (project : Project) : Except GoString Unit :=
  firstError [
    (!validIdentifier project.id, ascii "invalid project ID " ++ quote project.id),
    (!validName project.name, ascii "invalid name for project " ++ quote project.id),
    (!validIdentifier project.createdBy,
      ascii "project " ++ quote project.id ++ ascii " has invalid creator " ++
        quote project.createdBy),
    (project.createdAt = 0 || project.updatedAt < project.createdAt,
      ascii "project " ++ quote project.id ++ ascii " has invalid timestamps")]

theorem Project.validate_ok_iff (project : Project) : project.validate = .ok () ↔
    validIdentifier project.id = true ∧ validName project.name = true ∧
      validIdentifier project.createdBy = true ∧
      project.createdAt ≠ 0 ∧ project.createdAt ≤ project.updatedAt := by
  simp [Project.validate]

structure Membership where
  projectID : ProjectID
  userID : UserID
  role : Role
  createdAt : Int
  updatedAt : Int
  deriving DecidableEq

def Membership.validate (membership : Membership) : Except GoString Unit :=
  (firstError [(!validIdentifier membership.projectID || !validIdentifier membership.userID,
    ascii "membership has invalid project or user identity")]).bind fun _ =>
  membership.role.validate.bind fun _ =>
  firstError [(membership.createdAt = 0 || membership.updatedAt < membership.createdAt,
    ascii "membership for user " ++ quote membership.userID ++ ascii " in project " ++
      quote membership.projectID ++ ascii " has invalid timestamps")]

theorem Membership.validate_ok_iff (m : Membership) : m.validate = .ok () ↔
    (validIdentifier m.projectID = true ∧ validIdentifier m.userID = true) ∧
      m.role.validate = .ok () ∧ m.createdAt ≠ 0 ∧ m.createdAt ≤ m.updatedAt := by
  simp [Membership.validate]

structure WorkflowOwnership where
  workflowID : WorkflowID
  projectID : ProjectID
  ownerUserID : UserID
  createdAt : Int
  deriving DecidableEq

def WorkflowOwnership.validate (ownership : WorkflowOwnership) : Except GoString Unit :=
  firstError [
    (!validIdentifier ownership.workflowID || !validIdentifier ownership.projectID ||
      !validIdentifier ownership.ownerUserID,
      ascii "workflow ownership has an invalid identity"),
    (ownership.createdAt = 0,
      ascii "workflow " ++ quote ownership.workflowID ++
        ascii " ownership has no creation timestamp")]

theorem WorkflowOwnership.validate_ok_iff (o : WorkflowOwnership) : o.validate = .ok () ↔
    (validIdentifier o.workflowID = true ∧ validIdentifier o.projectID = true ∧
      validIdentifier o.ownerUserID = true) ∧ o.createdAt ≠ 0 := by
  simp [WorkflowOwnership.validate, and_assoc]

structure AuditEvent where
  id : AuditEventID
  projectID : ProjectID
  actorUserID : UserID
  action : GoString
  resourceType : GoString
  resourceID : GoString
  occurredAt : Int
  metadata : KeyMap GoString GoString
  deriving DecidableEq

def AuditEvent.validate (event : AuditEvent) : Except GoString Unit :=
  firstError [
    (!validIdentifier event.id || !validIdentifier event.projectID ||
      !validIdentifier event.actorUserID, ascii "audit event has an invalid identity"),
    (!validIdentifier event.action || !validIdentifier event.resourceType ||
      !validIdentifier event.resourceID,
      ascii "audit event " ++ quote event.id ++ ascii " has invalid action or resource"),
    (event.occurredAt = 0, ascii "audit event " ++ quote event.id ++ ascii " has no timestamp"),
    (event.metadata.entries.any fun e => !validIdentifier e.1 || 500 < e.2.length,
      ascii "audit event " ++ quote event.id ++ ascii " has invalid metadata")]

theorem AuditEvent.validate_ok_iff (event : AuditEvent) : event.validate = .ok () ↔
    (validIdentifier event.id = true ∧ validIdentifier event.projectID = true ∧
      validIdentifier event.actorUserID = true) ∧
    (validIdentifier event.action = true ∧ validIdentifier event.resourceType = true ∧
      validIdentifier event.resourceID = true) ∧ event.occurredAt ≠ 0 ∧
    ∀ e ∈ event.metadata.entries, validIdentifier e.1 = true ∧ e.2.length ≤ 500 := by
  simp [AuditEvent.validate, and_assoc]

end ForgeFlow.Security
