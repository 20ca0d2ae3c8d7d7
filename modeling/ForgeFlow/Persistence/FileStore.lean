import ForgeFlow.Base.Lines
import ForgeFlow.Security.Model
import ForgeFlow.Execution.Store

/-!
# The file store

A mutation of the store is cut at its call of `appendRecord`: it is refused, or it
has nothing to write, or it has a record to append and a state that becomes
visible once the append has returned. Opening a store replays the journal.
-/

namespace ForgeFlow.Persistence

open ForgeFlow.Base ForgeFlow.Workflow ForgeFlow.Execution ForgeFlow.Security

inductive StoreError where
  | message (text : GoString)
  | invalidDefinition (cause : ValidationError)
  | invalidRun (cause : RunError)
  | workflowNotFound (workflowID : WorkflowID)
  | workflowConflict (workflowID : WorkflowID)
  | runAlreadyExists (runID : RunID)
  | runNotFound (runID : RunID)
  | runVersionConflict (runID : RunID) (expectedVersion actualVersion : Nat)
  | projectAlreadyExists (projectID : ProjectID)
  | projectNotFound (projectID : ProjectID)
  | userDisabled (userID : UserID)
  | workflowOwnershipConflict (workflowID : WorkflowID)
  | auditEventAlreadyExists (eventID : AuditEventID)
  | wrapped (label : GoString) (cause : StoreError)
  deriving DecidableEq

/-- What a call finds when it looks at its context. -/
inductive ContextState where
  | live
  | missing
  | done (err : GoString)
  deriving DecidableEq

def contextError : ContextState → Except StoreError Unit
  | .live => .ok ()
  | .missing => .error (.message (ascii "ForgeFlow store context is nil"))
  | .done err => .error (.wrapped (ascii "ForgeFlow store operation: ") (.message err))

def checkDefinition (label : String) (definition : WorkflowDefinition) : Except StoreError Unit :=
  definition.validate.mapError fun e => .wrapped (ascii label) (.invalidDefinition e)

def checkSnapshot (label : String) (snapshot : WorkflowRunSnapshot) : Except StoreError Unit :=
  snapshot.validate.mapError fun e => .wrapped (ascii label) (.invalidRun e)

/-- A check of one of the security records, with the caller's label. -/
def checkRecord (label : String) (check : Except GoString Unit) : Except StoreError Unit :=
  check.mapError fun e => .wrapped (ascii label) (.message e)

def refuse (text : String) : StoreError := .message (ascii text)

/-! ## Journal records -/

inductive JournalOperation where
  | saveWorkflow
  | createRun
  | saveRun
  | createProject
  | saveProject
  | putMembership
  | saveOwnedWorkflow
  | other (text : GoString)
  deriving DecidableEq

def journalVersion : Int := 1

structure JournalRecord where
  version : Int := journalVersion
  operation : JournalOperation
  workflow : Option WorkflowDefinition := none
  run : Option WorkflowRunSnapshot := none
  user : Option User := none
  project : Option Project := none
  membership : Option Membership := none
  ownership : Option WorkflowOwnership := none
  auditEvent : Option AuditEvent := none
  deriving DecidableEq

structure FileStore where
  workflows : KeyMap WorkflowID WorkflowDefinition := ∅
  runs : KeyMap RunID WorkflowRunSnapshot := ∅
  users : KeyMap UserID User := ∅
  projects : KeyMap ProjectID Project := ∅
  memberships : KeyMap ProjectID (KeyMap UserID Membership) := ∅
  ownerships : KeyMap WorkflowID WorkflowOwnership := ∅
  auditEvents : KeyMap ProjectID (List AuditEvent) := ∅
  auditIDs : KeyMap AuditEventID Unit := ∅
  deriving DecidableEq

/-- What a mutation appends, and the state it makes visible after that. -/
structure Commit where
  record : JournalRecord
  next : FileStore

namespace FileStore

def membersOf (store : FileStore) (projectID : ProjectID) : KeyMap UserID Membership :=
  (store.memberships.get? projectID).getD ∅

def membership? (store : FileStore) (projectID : ProjectID) (userID : UserID) :
    Option Membership :=
  (store.membersOf projectID).get? userID

def validateRunDefinition (store : FileStore) (snapshot : WorkflowRunSnapshot) :
    Except StoreError Unit :=
  match store.workflows.get? snapshot.workflowID with
  | none => .error (.workflowNotFound snapshot.workflowID)
  | some definition =>
    match restoreWorkflowRun snapshot definition with
    | .error e =>
      .error (.wrapped (ascii "validate workflow run against definition: ") (.invalidRun e))
    | .ok _ => .ok ()

/-! ## Applying security records -/

def checkAuditEvent (store : FileStore) : Option AuditEvent → Except StoreError Unit
  | none => .ok ()
  | some event =>
    (event.validate.mapError .message).bind fun _ =>
    firstError [(store.auditIDs.contains event.id, .auditEventAlreadyExists event.id)]

def applyUser (store : FileStore) : Option User → Except StoreError FileStore
  | none => .ok store
  | some user =>
    match store.users.get? user.id with
    | some existing =>
      if existing.disabled ≠ user.disabled then
        .error (.message
          (ascii "user " ++ quote user.id ++ ascii " immutable disabled state differs"))
      else .ok store
    | none => .ok { store with users := store.users.insert user.id user }

def putMember (store : FileStore) (membership : Membership) : FileStore :=
  { store with
    memberships := store.memberships.insert membership.projectID
      ((store.membersOf membership.projectID).insert membership.userID membership) }

def addAuditEvent (store : FileStore) (event : AuditEvent) : FileStore :=
  { store with
    auditEvents := store.auditEvents.insert event.projectID
      ((store.auditEvents.get? event.projectID).getD [] ++ [event])
    auditIDs := store.auditIDs.insert event.id () }

/-- The parts of a record that cannot be refused any more. -/
def applyParts (store : FileStore) (record : JournalRecord) : FileStore :=
  let store := match record.project with
    | some project => { store with projects := store.projects.insert project.id project }
    | none => store
  let store := match record.membership with
    | some membership => store.putMember membership
    | none => store
  let store := match record.workflow with
    | some definition =>
      { store with workflows := store.workflows.insert definition.id (cloneDefinition definition) }
    | none => store
  let store := match record.ownership with
    | some ownership =>
      { store with ownerships := store.ownerships.insert ownership.workflowID ownership }
    | none => store
  match record.auditEvent with
  | some event => store.addAuditEvent event
  | none => store

def applySecurityRecord (store : FileStore) (record : JournalRecord) :
    Except StoreError FileStore :=
  (store.checkAuditEvent record.auditEvent).bind fun _ =>
  (store.applyUser record.user).bind fun store =>
  .ok (store.applyParts record)

/-- The live calls drop the error of `applySecurityRecord`, which has changed
nothing when it returns one. -/
def securityCommit (store : FileStore) (record : JournalRecord) : Commit where
  record := record
  next :=
    match store.applySecurityRecord record with
    | .ok next => next
    | .error _ => store

/-! ## The seven mutations -/

def saveWorkflow (store : FileStore) (entry late : ContextState)
    (definition : WorkflowDefinition) : Except StoreError (Option Commit) :=
  (contextError entry).bind fun _ =>
  (checkDefinition "save workflow definition: " definition).bind fun _ =>
  match store.workflows.get? definition.id with
  | some existing =>
    if existing = definition then .ok none else .error (.workflowConflict definition.id)
  | none =>
    (contextError late).bind fun _ =>
    let definition := cloneDefinition definition
    .ok (some {
      record := { operation := .saveWorkflow, workflow := some definition }
      next := { store with workflows := store.workflows.insert definition.id definition } })

def createRun (store : FileStore) (entry late : ContextState) (snapshot : WorkflowRunSnapshot) :
    Except StoreError (Option Commit) :=
  (contextError entry).bind fun _ =>
  (checkSnapshot "create workflow run: " snapshot).bind fun _ =>
  (firstError [
    (store.runs.contains snapshot.id, .runAlreadyExists snapshot.id),
    (snapshot.version ≠ 0,
      .message (ascii "create workflow run " ++ quote snapshot.id ++
        ascii ": initial version must be zero"))]).bind fun _ =>
  (store.validateRunDefinition snapshot).bind fun _ =>
  (contextError late).bind fun _ =>
  let snapshot := { snapshot with version := 1 }
  .ok (some {
    record := { operation := .createRun, run := some snapshot }
    next := { store with runs := store.runs.insert snapshot.id snapshot } })

def saveRun (store : FileStore) (entry late : ContextState) (snapshot : WorkflowRunSnapshot) :
    Except StoreError (Option Commit) :=
  (contextError entry).bind fun _ =>
  (checkSnapshot "save workflow run: " snapshot).bind fun _ =>
  match store.runs.get? snapshot.id with
  | none => .error (.runNotFound snapshot.id)
  | some current =>
    (firstError [(snapshot.version ≠ current.version,
      .runVersionConflict snapshot.id snapshot.version current.version)]).bind fun _ =>
    (store.validateRunDefinition snapshot).bind fun _ =>
    (contextError late).bind fun _ =>
    let snapshot := { snapshot with version := snapshot.version + 1 }
    .ok (some {
      record := { operation := .saveRun, run := some snapshot }
      next := { store with runs := store.runs.insert snapshot.id snapshot } })

def loadRun (store : FileStore) (ctx : ContextState) (runID : RunID) :
    Except StoreError (Option WorkflowRunSnapshot) :=
  (contextError ctx).map fun _ => store.runs.get? runID

def validateProjectCreation (ctx : ContextState) (user : User) (project : Project)
    (membership : Membership) (event : AuditEvent) : Except StoreError Unit :=
  (contextError ctx).bind fun _ =>
  (checkRecord "create project user: " user.validate).bind fun _ =>
  (checkRecord "create project: " project.validate).bind fun _ =>
  (checkRecord "create project membership: " membership.validate).bind fun _ =>
  (checkRecord "create project audit event: " event.validate).bind fun _ =>
  firstError [
    (project.createdBy ≠ user.id || membership.projectID ≠ project.id ||
      membership.userID ≠ user.id || membership.role ≠ .admin ||
      event.projectID ≠ project.id || event.actorUserID ≠ user.id,
      refuse "create project: creator, initial admin, or audit identity does not match")]

/-- A user the store knows stands for the one a call brings, unless disabled. -/
def knownUser (store : FileStore) (user : User) : Except StoreError User :=
  match store.users.get? user.id with
  | some existing => if existing.disabled then .error (.userDisabled user.id) else .ok existing
  | none => .ok user

def createProject (store : FileStore) (ctx : ContextState) (user : User) (project : Project)
    (membership : Membership) (event : AuditEvent) : Except StoreError (Option Commit) :=
  (validateProjectCreation ctx user project membership event).bind fun _ =>
  (firstError [(store.projects.contains project.id, .projectAlreadyExists project.id)]).bind fun _ =>
  (store.knownUser user).bind fun user =>
  (firstError [(store.auditIDs.contains event.id, .auditEventAlreadyExists event.id)]).bind fun _ =>
  .ok (some (store.securityCommit {
    operation := .createProject, user := some user, project := some project,
    membership := some membership, auditEvent := some event }))

def saveProject (store : FileStore) (ctx : ContextState) (project : Project)
    (event : AuditEvent) : Except StoreError (Option Commit) :=
  (contextError ctx).bind fun _ =>
  (checkRecord "save project: " project.validate).bind fun _ =>
  (checkRecord "save project audit event: " event.validate).bind fun _ =>
  (firstError [(event.projectID ≠ project.id,
    refuse "save project: audit event belongs to another project")]).bind fun _ =>
  match store.projects.get? project.id with
  | none => .error (.projectNotFound project.id)
  | some existing =>
    (firstError [
      (existing.createdAt ≠ project.createdAt || existing.createdBy ≠ project.createdBy,
        refuse "save project: immutable creator fields changed"),
      (store.auditIDs.contains event.id, .auditEventAlreadyExists event.id)]).bind fun _ =>
    .ok (some (store.securityCommit {
      operation := .saveProject, project := some project, auditEvent := some event }))

/-- A membership that replaces another keeps the creation time of the first. -/
def replaceMembership (store : FileStore) (membership : Membership) :
    Except StoreError Membership :=
  match store.membership? membership.projectID membership.userID with
  | none => .ok membership
  | some existing =>
    if membership.updatedAt < existing.updatedAt then
      .error (refuse "put membership: update timestamp moved backwards")
    else .ok { membership with createdAt := existing.createdAt }

def putMembership (store : FileStore) (ctx : ContextState) (user : User)
    (membership : Membership) (event : AuditEvent) : Except StoreError (Option Commit) :=
  (contextError ctx).bind fun _ =>
  (checkRecord "put membership user: " user.validate).bind fun _ =>
  (checkRecord "put membership: " membership.validate).bind fun _ =>
  (checkRecord "put membership audit event: " event.validate).bind fun _ =>
  (firstError [
    (membership.userID ≠ user.id || event.projectID ≠ membership.projectID,
      refuse "put membership: user or audit project does not match membership"),
    (!store.projects.contains membership.projectID,
      .projectNotFound membership.projectID)]).bind fun _ =>
  (store.knownUser user).bind fun user =>
  (store.replaceMembership membership).bind fun membership =>
  (firstError [(store.auditIDs.contains event.id, .auditEventAlreadyExists event.id)]).bind fun _ =>
  .ok (some (store.securityCommit {
    operation := .putMembership, user := some user, membership := some membership,
    auditEvent := some event }))

def saveWorkflowForProject (store : FileStore) (ctx : ContextState)
    (definition : WorkflowDefinition) (ownership : WorkflowOwnership) :
    Except StoreError (Option Commit) :=
  (contextError ctx).bind fun _ =>
  (checkDefinition "save owned workflow definition: " definition).bind fun _ =>
  (checkRecord "save workflow ownership: " ownership.validate).bind fun _ =>
  (firstError [
    (ownership.workflowID ≠ definition.id,
      refuse "save workflow ownership: definition identity does not match"),
    (!store.projects.contains ownership.projectID, .projectNotFound ownership.projectID),
    (!(store.membersOf ownership.projectID).contains ownership.ownerUserID,
      refuse "save workflow ownership: owner is not a project member"),
    ((store.users.get? ownership.ownerUserID).any User.disabled,
      .userDisabled ownership.ownerUserID),
    ((store.workflows.get? definition.id).any fun existing => existing ≠ definition,
      .workflowConflict definition.id)]).bind fun _ =>
  match store.ownerships.get? definition.id with
  | some existing =>
    if existing = ownership then .ok none
    else .error (.workflowOwnershipConflict definition.id)
  | none =>
    .ok (some (store.securityCommit {
      operation := .saveOwnedWorkflow, workflow := some (cloneDefinition definition),
      ownership := some ownership }))

end FileStore

/-- A call of one of the mutations, with what it reads of its context. -/
inductive Mutation where
  | saveWorkflow (entry late : ContextState) (definition : WorkflowDefinition)
  | createRun (entry late : ContextState) (snapshot : WorkflowRunSnapshot)
  | saveRun (entry late : ContextState) (snapshot : WorkflowRunSnapshot)
  | createProject (ctx : ContextState) (user : User) (project : Project)
      (membership : Membership) (event : AuditEvent)
  | saveProject (ctx : ContextState) (project : Project) (event : AuditEvent)
  | putMembership (ctx : ContextState) (user : User) (membership : Membership)
      (event : AuditEvent)
  | saveWorkflowForProject (ctx : ContextState) (definition : WorkflowDefinition)
      (ownership : WorkflowOwnership)

namespace FileStore

def prepare (store : FileStore) : Mutation → Except StoreError (Option Commit)
  | .saveWorkflow entry late definition => store.saveWorkflow entry late definition
  | .createRun entry late snapshot => store.createRun entry late snapshot
  | .saveRun entry late snapshot => store.saveRun entry late snapshot
  | .createProject ctx user project membership event =>
    store.createProject ctx user project membership event
  | .saveProject ctx project event => store.saveProject ctx project event
  | .putMembership ctx user membership event => store.putMembership ctx user membership event
  | .saveWorkflowForProject ctx definition ownership =>
    store.saveWorkflowForProject ctx definition ownership

/-- The effect of a call when its append succeeds. -/
def mutate (store : FileStore) (m : Mutation) : FileStore :=
  match store.prepare m with
  | .ok (some commit) => commit.next
  | _ => store

/-! ## Replay -/

def applyWorkflowRecord (store : FileStore) (record : JournalRecord) :
    Except StoreError FileStore :=
  match record.workflow, record.run with
  | some definition, none =>
    (checkDefinition "replay ForgeFlow workflow definition: " definition).bind fun _ =>
    (firstError [((store.workflows.get? definition.id).any fun existing => existing ≠ definition,
      .workflowConflict definition.id)]).bind fun _ =>
    .ok { store with
      workflows := store.workflows.insert definition.id (cloneDefinition definition) }
  | _, _ => .error (refuse "replay ForgeFlow journal: malformed workflow record")

/-- Journals from before optimistic versioning have no run version: replay
numbers their revisions in record order. -/
def numberedRun (run : WorkflowRunSnapshot) (current : Option WorkflowRunSnapshot) :
    WorkflowRunSnapshot :=
  if run.version = 0 then
    { run with version := match current with
      | some current => current.version + 1
      | none => 1 }
  else run

def applyRunRecord (store : FileStore) (record : JournalRecord) : Except StoreError FileStore :=
  match record.run, record.workflow with
  | some run, none =>
    let current := store.runs.get? run.id
    let run := numberedRun run current
    (checkSnapshot "replay ForgeFlow workflow run: " run).bind fun _ =>
    ((store.validateRunDefinition run).mapError
      (.wrapped (ascii "replay ForgeFlow workflow run: "))).bind fun _ =>
    -- a missing run reads as the zero snapshot
    let currentVersion := (current.map WorkflowRunSnapshot.version).getD 0
    (firstError [
      (record.operation = .createRun && current.isSome, .runAlreadyExists run.id),
      (record.operation = .saveRun && current.isNone, .runNotFound run.id),
      (record.operation = .createRun && run.version ≠ 1,
        .message (ascii "replay ForgeFlow workflow run " ++ quote run.id ++
          ascii ": create version is " ++ formatNat run.version ++ ascii ", want 1")),
      (record.operation = .saveRun && run.version ≠ currentVersion + 1,
        .message (ascii "replay ForgeFlow workflow run " ++ quote run.id ++
          ascii ": version is " ++ formatNat run.version ++ ascii ", want " ++
          formatNat (currentVersion + 1)))]).bind fun _ =>
    .ok { store with runs := store.runs.insert run.id run }
  | _, _ => .error (refuse "replay ForgeFlow journal: malformed workflow run record")

def applyProjectCreation (store : FileStore) (record : JournalRecord) :
    Except StoreError FileStore :=
  match record.user, record.project, record.membership, record.auditEvent with
  | some user, some project, some membership, some event =>
    ((validateProjectCreation .live user project membership event).mapError
      (.wrapped (ascii "replay ForgeFlow project: "))).bind fun _ =>
    (firstError [(store.projects.contains project.id,
      .projectAlreadyExists project.id)]).bind fun _ =>
    store.applySecurityRecord record
  | _, _, _, _ => .error (refuse "replay ForgeFlow journal: malformed create project record")

def applyProjectRecord (store : FileStore) (record : JournalRecord) :
    Except StoreError FileStore :=
  match record.project, record.auditEvent with
  | some project, some event =>
    (checkRecord "replay ForgeFlow project: " project.validate).bind fun _ =>
    (firstError [
      (!store.projects.contains project.id, .projectNotFound project.id),
      (event.projectID ≠ project.id,
        refuse "replay ForgeFlow project: audit project does not match")]).bind fun _ =>
    store.applySecurityRecord record
  | _, _ => .error (refuse "replay ForgeFlow journal: malformed save project record")

def applyMembershipRecord (store : FileStore) (record : JournalRecord) :
    Except StoreError FileStore :=
  match record.user, record.membership, record.auditEvent with
  | some user, some membership, some event =>
    (checkRecord "replay ForgeFlow membership user: " user.validate).bind fun _ =>
    (checkRecord "replay ForgeFlow membership: " membership.validate).bind fun _ =>
    (firstError [
      (membership.userID ≠ user.id || event.projectID ≠ membership.projectID,
        refuse "replay ForgeFlow membership: identities do not match"),
      (!store.projects.contains membership.projectID,
        .projectNotFound membership.projectID)]).bind fun _ =>
    store.applySecurityRecord record
  | _, _, _ => .error (refuse "replay ForgeFlow journal: malformed membership record")

def applyOwnedWorkflow (store : FileStore) (record : JournalRecord) :
    Except StoreError FileStore :=
  match record.workflow, record.ownership with
  | some definition, some ownership =>
    (checkDefinition "replay ForgeFlow owned workflow: " definition).bind fun _ =>
    (checkRecord "replay ForgeFlow workflow ownership: " ownership.validate).bind fun _ =>
    (firstError [
      (ownership.workflowID ≠ definition.id,
        refuse "replay ForgeFlow owned workflow: ownership identity does not match"),
      (!store.projects.contains ownership.projectID, .projectNotFound ownership.projectID),
      (!(store.membersOf ownership.projectID).contains ownership.ownerUserID,
        refuse "replay ForgeFlow owned workflow: owner is not a project member"),
      ((store.workflows.get? definition.id).any fun existing => existing ≠ definition,
        .workflowConflict definition.id),
      ((store.ownerships.get? definition.id).any fun existing => existing ≠ ownership,
        .workflowOwnershipConflict definition.id)]).bind fun _ =>
    store.applySecurityRecord record
  | _, _ => .error (refuse "replay ForgeFlow journal: malformed owned workflow record")

def applyRecord (store : FileStore) (record : JournalRecord) : Except StoreError FileStore :=
  match record.operation with
  | .saveWorkflow => store.applyWorkflowRecord record
  | .createRun | .saveRun => store.applyRunRecord record
  | .createProject => store.applyProjectCreation record
  | .saveProject => store.applyProjectRecord record
  | .putMembership => store.applyMembershipRecord record
  | .saveOwnedWorkflow => store.applyOwnedWorkflow record
  | .other text =>
    .error (.message (ascii "replay ForgeFlow journal: unknown operation " ++ quote text))

/-- Replay of one decoded record. -/
def replayRecord (store : FileStore) (record : JournalRecord) : Except StoreError FileStore :=
  (firstError [(record.version ≠ journalVersion,
    .message (ascii "decode ForgeFlow journal record: unsupported version " ++
      formatInt record.version))]).bind fun _ =>
  store.applyRecord record

end FileStore

structure JournalEnvelope where
  checksum : GoString
  payload : List UInt8
  deriving DecidableEq

def newline : UInt8 := 0x0A

/-- JSON and SHA-256 as the journal uses them: what was written reads back, and
an encoded envelope has no newline. -/
structure JournalCodec where
  encodeRecord : JournalRecord → List UInt8
  decodeRecord : List UInt8 → Except GoString JournalRecord
  encodeEnvelope : JournalEnvelope → List UInt8
  decodeEnvelope : List UInt8 → Except GoString JournalEnvelope
  /-- the hexadecimal SHA-256 digest -/
  digest : List UInt8 → GoString
  decodeRecord_encode : ∀ r, decodeRecord (encodeRecord r) = .ok r
  decodeEnvelope_encode : ∀ checksum r,
    decodeEnvelope (encodeEnvelope ⟨checksum, encodeRecord r⟩) = .ok ⟨checksum, encodeRecord r⟩
  newline_not_mem : ∀ r,
    newline ∉ encodeEnvelope ⟨digest (encodeRecord r), encodeRecord r⟩

namespace JournalCodec

def envelope (codec : JournalCodec) (record : JournalRecord) : List UInt8 :=
  let payload := codec.encodeRecord record
  codec.encodeEnvelope ⟨codec.digest payload, payload⟩

/-- The bytes `appendRecord` writes. -/
def encodeLine (codec : JournalCodec) (record : JournalRecord) : List UInt8 :=
  codec.envelope record ++ [newline]

def decodeLine (codec : JournalCodec) (line : List UInt8) : Except StoreError JournalRecord :=
  ((codec.decodeEnvelope line).mapError fun e =>
    .wrapped (ascii "decode ForgeFlow journal envelope: ") (.message e)).bind fun envelope =>
  (firstError [(envelope.checksum ≠ codec.digest envelope.payload,
    refuse "verify ForgeFlow journal record: checksum mismatch")]).bind fun _ =>
  (codec.decodeRecord envelope.payload).mapError fun e =>
    .wrapped (ascii "decode ForgeFlow journal record: ") (.message e)

def replayLine (codec : JournalCodec) (store : FileStore) (line : List UInt8) :
    Except StoreError FileStore :=
  (codec.decodeLine line).bind fun record => store.replayRecord record

def replayLines (codec : JournalCodec) :
    FileStore → List (List UInt8) → Except StoreError FileStore
  | store, [] => .ok store
  | store, line :: lines => (codec.replayLine store line).bind fun store =>
    codec.replayLines store lines

end JournalCodec

/-- A store and the file behind it. -/
structure OpenStore where
  file : List UInt8
  store : FileStore

/-- Every terminated line is replayed; bytes after the last newline are cut off. -/
def openFileStore (codec : JournalCodec) (file : List UInt8) : Except StoreError OpenStore :=
  let split := splitLines newline file
  (codec.replayLines {} split.1).bind fun store =>
  .ok {
    file := if split.2 = [] then file else file.take (joinLines newline split.1).length
    store := store }

end ForgeFlow.Persistence
