import ForgeFlow.Api.Isolation
import ForgeFlow.Base.Transition
import ForgeFlow.Persistence.References

/-!
# The audit trail of concurrent administrative requests

Renaming a project and assigning a role read the old value, build the audit event
from it, and save. Only the save is atomic: other requests can take their steps
between the three.
-/

namespace ForgeFlow.Api

open ForgeFlow.Base ForgeFlow.Workflow ForgeFlow.Execution ForgeFlow.Security
  ForgeFlow.Persistence

/-! ## The two requests, one step at a time -/

structure RenameRequest where
  principal : UserID
  projectID : ProjectID
  newName : Body GoString

/-- Where `updateProject` stands before its save. -/
inductive RenamePhase where
  | loadingPrincipal
  | loadingPrincipalMembership
  | loadingProject (name : GoString)
  | buildingEvent (old : Project) (name : GoString) (now : Int)
  | refused (error : APIError)

/-- The atomic save a request has prepared. -/
inductive AdminCall where
  | saveProject (project : Project) (event : AuditEvent)
  | putMembership (user : User) (membership : Membership) (event : AuditEvent)

def AdminCall.mutation (ctx : ContextState) : AdminCall → Mutation
  | .saveProject project event => .saveProject ctx project event
  | .putMembership user membership event => .putMembership ctx user membership event

/-- A request on its way: reading and building its event, about to save, or answered
by its save. -/
inductive AdminThread where
  | updating (request : RenameRequest) (phase : RenamePhase)
  | assigning (request : MemberRequest) (phase : Phase)
  | saving (call : AdminCall) (reply : Reply)
  | responded (reply : Reply)

namespace RenameRequest

def next {α : Type} (result : Except APIError α) (phase : α → RenamePhase) : RenamePhase :=
  match result with
  | .ok value => phase value
  | .error e => .refused e

/-- `LoadUser`, the first half of `authorizeProject`. -/
def loadPrincipal (request : RenameRequest) (store : FileStore) (input : StepInput) :
    RenamePhase :=
  next (do
    requestProjectID request.projectID
    let user ← required (← reading input.ctx (store.users.get? request.principal))
      (apiError 403 "forbidden" "authenticated user is not provisioned" "")
    firstError [(user.disabled, apiError 403 "user_disabled" "authenticated user is disabled" "")])
    fun _ => .loadingPrincipalMembership

/-- `LoadMembership`, the second half, and the body behind it. -/
def loadPrincipalMembership (request : RenameRequest) (store : FileStore) (input : StepInput) :
    RenamePhase :=
  next (do
    let membership ← required
      (← reading input.ctx (store.membership? request.projectID request.principal))
      (apiError 404 "project_not_found" "project was not found" "project_id")
    firstError [(!membership.role.allows .projectManage,
      apiError 403 "forbidden" "project role does not allow this operation" "")]
    request.newName) .loadingProject

def loadProject (request : RenameRequest) (store : FileStore) (input : StepInput)
    (name : GoString) : RenamePhase :=
  next (do
    required (← reading input.ctx (store.projects.get? request.projectID))
      (apiError 404 "project_not_found" "project was not found" "project_id"))
    fun old => .buildingEvent old name input.now

def auditEvent (request : RenameRequest) (old : Project) (name : GoString) (now : Int)
    (randomID : GoString) : AuditEvent :=
  newAuditEvent request.projectID request.principal "project.updated" "project" request.projectID
    (KeyMap.ofList [(ascii "old_name", old.name), (ascii "new_name", name)]) now randomID

def buildEvent (request : RenameRequest) (input : StepInput) (old : Project) (name : GoString)
    (now : Int) : AdminThread :=
  let project := { old with name := name, updatedAt := now }
  match input.randomID with
  | none => .updating request
      (.refused (apiError 500 "internal_error" "could not create audit identity" ""))
  | some randomID =>
    match project.validate with
    | .error e => .updating request (.refused ⟨422, ascii "invalid_project", e, ascii "name"⟩)
    | .ok _ => .saving (.saveProject project (request.auditEvent old name now randomID))
        (.ok 200 (.project project))

/-- The next step of a rename before its save. -/
def step (request : RenameRequest) (store : FileStore) (input : StepInput) :
    RenamePhase → AdminThread
  | .loadingPrincipal => .updating request (request.loadPrincipal store input)
  | .loadingPrincipalMembership => .updating request (request.loadPrincipalMembership store input)
  | .loadingProject name => .updating request (request.loadProject store input name)
  | .buildingEvent old name now => request.buildEvent input old name now
  | .refused e => .updating request (.refused e)

end RenameRequest

namespace MemberRequest

/-- The first half of what `putMembership` does in one step. -/
def buildEvent (request : MemberRequest) (input : StepInput) (now : Int)
    (existing : Option Membership) : AdminThread :=
  match request.auditIdentity input now with
  | .error e => .assigning request (fail e)
  | .ok randomID =>
    let membership := request.newMembership now existing
    .saving
      (.putMembership (request.newUser now) membership (request.auditEvent now existing randomID))
      (.ok (if existing.isSome then 200 else 201) (.membership membership))

/-- The next step of an assignment before its save. -/
def prepare (request : MemberRequest) (store : FileStore) (input : StepInput) :
    Phase → AdminThread
  | .puttingMembership now existing => request.buildEvent input now existing
  | phase => .assigning request (request.step store input phase).2

end MemberRequest

def AdminCall.save (call : AdminCall) (store : FileStore) (input : StepInput) (reply : Reply) :
    FileStore × AdminThread :=
  match commit store (call.mutation input.ctx) input.appendError with
  | .error e => (store, .responded (.failed (requestOrStoreErrorResponse e)))
  | .ok next => (next, .responded reply)

def AdminThread.step (store : FileStore) (input : StepInput) :
    AdminThread → FileStore × AdminThread
  | .updating request phase => (store, request.step store input phase)
  | .assigning request phase => (store, request.prepare store input phase)
  | .saving call reply => call.save store input reply
  | .responded reply => (store, .responded reply)

/-! ## The steps in a row -/

/-- The answer a request has been given. -/
def AdminThread.reply? : AdminThread → Option Reply
  | .updating _ (.refused e) => some (.failed e)
  | .assigning _ (.responded (.failed e)) => some (.failed e)
  | .assigning _ (.responded (.member status m)) => some (.ok status (.membership m))
  | .responded reply => some reply
  | _ => none

/-- Building the event and saving, with nothing between the two, is the one step that
a membership request makes of them. -/
theorem MemberRequest.putMembership_eq (request : MemberRequest) (store : FileStore)
    (input : StepInput) (now : Int) (existing : Option Membership) :
    ((request.buildEvent input now existing).step store input).1 =
        (request.putMembership store input now existing).1 ∧
      ((request.buildEvent input now existing).step store input).2.reply? =
        (AdminThread.assigning request
          (request.putMembership store input now existing).2).reply? := by
  unfold putMembership buildEvent
  cases request.auditIdentity input now with
  | error e => exact ⟨rfl, rfl⟩
  | ok randomID =>
    simp only [AdminThread.step, AdminCall.save, AdminCall.mutation, putCall]
    cases commit store _ input.appendError <;> exact ⟨rfl, rfl⟩

/-- A step that is not the save. -/
def AdminThread.proceed (store : FileStore) (input : StepInput) : AdminThread → AdminThread
  | .saving call reply => .saving call reply
  | t => (t.step store input).2

/-- A request up to its save, if nothing comes between its steps. -/
def AdminThread.uninterrupted (t : AdminThread) (store : FileStore) (input : StepInput) :
    AdminThread :=
  (AdminThread.proceed store input)^[5] t

/-- The action a request is about to take, once it has been refused or built its event. -/
def AdminThread.action? (ctx : ContextState) : AdminThread → Option (Except APIError Action)
  | .updating _ (.refused e) => some (.error e)
  | .assigning _ (.responded (.failed e)) => some (.error e)
  | .saving call (.ok status content) =>
    some (.ok (.mutate (call.mutation ctx) requestOrStoreErrorResponse status content))
  | _ => none

def Surroundings.input (env : Surroundings) : StepInput :=
  ⟨env.ctx, env.now, env.randomID, env.appendError⟩

/-- The step after that answers as the server does that has planned the action. -/
theorem AdminThread.answers {t : AdminThread} {server : ApiServer} {env : Surroundings}
    {principal : Principal} {method : Method} {route : Route}
    (h : t.action? env.ctx = some (server.plan env principal method route)) :
    ∃ reply, (t.step server.store env.input).2.reply? = some reply ∧
      server.handle env principal method route =
        (reply, { server with store := (t.step server.store env.input).1 }) := by
  unfold action? at h
  split at h
  · have hplan := Option.some.inj h
    rw [ApiServer.handle, ← hplan]
    exact ⟨_, rfl, rfl⟩
  · have hplan := Option.some.inj h
    rw [ApiServer.handle, ← hplan]
    exact ⟨_, rfl, rfl⟩
  · have hplan := Option.some.inj h
    rw [ApiServer.handle, ← hplan]
    simp only [ApiServer.perform, AdminThread.step, AdminCall.save, Surroundings.input]
    cases commit server.store _ env.appendError <;> exact ⟨_, rfl, rfl⟩
  · cases h

theorem reading_of_ctx {α : Type} {ctx : ContextState} {result : Except StoreError Unit}
    (h : contextError ctx = result) (value : α) :
    reading ctx value = (result.mapError storeErrorResponse).map fun _ => value := by
  rw [reading, h]

/-- A rename whose steps nothing comes between is `updateProject`. -/
theorem RenameRequest.uninterrupted_action (store : FileStore) (env : Surroundings)
    (principal : Principal) (projectID : ProjectID) (newName : Body GoString) :
    ((AdminThread.updating ⟨principal.userID, projectID, newName⟩ .loadingPrincipal).uninterrupted
        store env.input).action? env.ctx =
      some (handleProject store env principal .patch projectID newName) := by
  unfold AdminThread.uninterrupted handleProject
  simp only [Function.iterate_succ_apply, Function.iterate_zero_apply, AdminThread.proceed,
    AdminThread.step, step, loadPrincipal]
  -- each check that refuses ends both sides with the same error
  rcases requestProjectID projectID with e | _
  · rfl
  rcases hctx : contextError env.ctx with e | _
  · simp only [updateProject, authorizeProject, Surroundings.input, reading_of_ctx hctx]
    rfl
  simp only [updateProject, authorizeProject, Surroundings.input, reading_of_ctx hctx]
  rcases store.users.get? principal.userID with _ | ⟨userID, displayName, disabled, createdAt⟩
  · rfl
  rcases disabled with _ | _
  swap
  · rfl
  simp only [required, firstError, next, bind, Except.bind, Except.map, Except.mapError,
    loadPrincipalMembership, reading_of_ctx hctx, Bool.false_eq_true, if_false]
  rcases store.membership? projectID principal.userID with _ | m
  · rfl
  rcases hallow : m.role.allows .projectManage with _ | _
  · simp only [hallow, Bool.not_false, if_true]
    rfl
  simp only [hallow, Bool.not_true, Bool.false_eq_true, if_false]
  rcases newName with e | name
  · rfl
  simp only [loadProject, Api.loadProject, reading_of_ctx hctx, bind, Except.bind, Except.map,
    Except.mapError]
  rcases store.projects.get? projectID with _ | old
  · rfl
  simp only [next, required, buildEvent, auditIdentity]
  rcases env.randomID with _ | randomID
  · rfl
  dsimp only
  rcases ({ old with name := name, updatedAt := env.now } : Project).validate with e | _
  · rfl
  · rfl

/-- An assignment whose steps nothing comes between is `handleProjectMember`. -/
theorem MemberRequest.uninterrupted_action (store : FileStore) (env : Surroundings)
    (principal : Principal) (projectID : ProjectID) (userID : UserID)
    (payload : MembershipPayload) :
    ((AdminThread.assigning
        ⟨principal.userID, projectID, userID, payload.displayName, payload.role⟩
        .loadingPrincipal).uninterrupted store env.input).action? env.ctx =
      some (handleProjectMember store env principal .put projectID userID (.ok payload)) := by
  unfold AdminThread.uninterrupted handleProjectMember
  simp only [Function.iterate_succ_apply, Function.iterate_zero_apply, AdminThread.proceed,
    AdminThread.step, prepare, step, loadPrincipal, requestProjectID, requireMethod, firstError,
    authorizeProject, ne_eq, not_true_eq_false, decide_false, Bool.false_eq_true, if_false]
  rcases validResourceID projectID with _ | _
  · rfl
  rcases hctx : contextError env.ctx with e | _
  · simp only [Surroundings.input, reading_of_ctx hctx, hctx]
    rfl
  simp only [Surroundings.input, reading_of_ctx hctx, hctx]
  rcases store.users.get? principal.userID with _ | ⟨_, _, disabled, _⟩
  · rfl
  rcases disabled with _ | _
  swap
  · rfl
  simp only [required, bind, Except.bind, Except.map, Except.mapError, loadPrincipalMembership,
    hctx, Bool.not_true, Bool.false_eq_true, if_false]
  rcases store.membership? projectID principal.userID with _ | m
  · rfl
  rcases hallow : m.role.allows .projectManage with _ | _
  · simp only [hallow, Bool.not_false, if_true]
    rfl
  simp only [hallow, Bool.not_true, Bool.false_eq_true, if_false]
  rcases plainIdentifier userID with _ | _
  · rfl
  simp only [Bool.not_true, Bool.false_eq_true, if_false]
  rcases payload.role.validate with e | _
  · rfl
  simp only [loadMembership, retainAdmin, listMemberships, buildEvent, hctx, firstError,
    auditIdentity, Api.auditIdentity, newUser, putCall]
  generalize store.membership? projectID userID = existing
  -- only a demotion makes the step that counts the admins
  cases (existing.any fun m => decide (m.role = .admin)) && decide (payload.role ≠ .admin) with
  | false =>
    simp only [Bool.false_eq_true, if_false, Bool.false_and]
    rcases env.randomID with _ | randomID
    · rfl
    rcases (User.mk userID payload.displayName false env.now).validate with e | _
    · rfl
    · rfl
  | true =>
    simp only [if_true, Bool.true_and, decide_eq_true_eq]
    by_cases hone : admins store projectID = 1
    · simp only [hone, if_true]
      rfl
    simp only [hone, if_false]
    rcases env.randomID with _ | randomID
    · rfl
    rcases (User.mk userID payload.displayName false env.now).validate with e | _
    · rfl
    · rfl

/-! ## The server -/

structure AdminServer where
  store : FileStore := {}
  threads : List AdminThread := []

/-- The mutations the two requests do not make: a project is created with the event
of its creation. -/
def elsewhere : Mutation → Bool
  | .saveProject _ _ _ => false
  | .putMembership _ _ _ _ => false
  | .createProject _ _ _ _ event => event.action = ascii "project.created"
  | _ => true

inductive AdminStep where
  | rename (request : RenameRequest)
  | assign (request : MemberRequest)
  /-- A request takes its next step. -/
  | advance (index : Nat) (input : StepInput)
  /-- Another handler, or the engine, changes the store. -/
  | mutate (m : Mutation) (h : elsewhere m = true)

namespace AdminServer

def arrive (s : AdminServer) (t : AdminThread) : AdminServer :=
  { s with threads := s.threads ++ [t] }

def step (s : AdminServer) : AdminStep → Option AdminServer
  | .rename request => some (s.arrive (.updating request .loadingPrincipal))
  | .assign request => some (s.arrive (.assigning request .loadingPrincipal))
  | .advance i input => (s.threads[i]?).map fun t =>
      let next := t.step s.store input
      { store := next.1, threads := s.threads.set i next.2 }
  | .mutate m _ => some { s with store := s.store.mutate m }

end AdminServer

/-! ## What the events say -/

/-- The event gives the name or the role stored immediately before a commit, and the
one stored after it. -/
structure Tells (e : AuditEvent) (s s' : FileStore) : Prop where
  name : e.action = ascii "project.updated" → ∃ old new,
    s.projects.get? e.projectID = some old ∧ s'.projects.get? e.projectID = some new ∧
      e.metadata.get? (ascii "old_name") = some old.name ∧
      e.metadata.get? (ascii "new_name") = some new.name
  /-- The role is empty if there was none. -/
  role : e.action = ascii "membership.updated" → ∃ new,
    s'.membership? e.projectID e.resourceID = some new ∧
      e.metadata.get? (ascii "old_role") =
        some (((s.membership? e.projectID e.resourceID).map fun m => m.role.text).getD []) ∧
      e.metadata.get? (ascii "new_role") = some new.role.text

/-- What an administrative request reads and changes. -/
inductive Detail where
  | name (projectID : ProjectID)
  | role (projectID : ProjectID) (userID : UserID)
  deriving DecidableEq

namespace Detail

def project : Detail → ProjectID
  | .name p => p
  | .role p _ => p

def value (store : FileStore) : Detail → Option GoString
  | .name p => (store.projects.get? p).map Project.name
  | .role p u => (store.membership? p u).map fun m => m.role.text

end Detail

namespace AdminCall

def detail : AdminCall → Detail
  | .saveProject project _ => .name project.id
  | .putMembership _ membership _ => .role membership.projectID membership.userID

/-- The value the save gives to its detail. -/
def value : AdminCall → GoString
  | .saveProject project _ => project.name
  | .putMembership _ membership _ => membership.role.text

def event : AdminCall → AuditEvent
  | .saveProject _ event => event
  | .putMembership _ _ event => event

end AdminCall

/-- What a request has read and not yet saved. -/
def AdminThread.detail? : AdminThread → Option Detail
  | .updating request (.buildingEvent _ _ _) => some (.name request.projectID)
  | .assigning request (.listingMemberships _ _) => some (.role request.projectID request.userID)
  | .assigning request (.puttingMembership _ _) => some (.role request.projectID request.userID)
  | .saving call _ => some call.detail
  | _ => none

def AdminThread.call? : AdminThread → Option AdminCall
  | .saving call _ => some call
  | _ => none

/-- No save changes the name of a project, or the role of a user, that another request
has read and not yet saved. -/
def AdminServer.Undisturbed (s : AdminServer) : AdminStep → Prop
  | .advance i _ => ∀ call ∈ (s.threads[i]?).bind AdminThread.call?,
      call.detail.value s.store = some call.value ∨
        ∀ t ∈ s.threads.eraseIdx i, t.detail? ≠ some call.detail
  | _ => True

instance (s : AdminServer) : ∀ step, Decidable (s.Undisturbed step)
  | .advance i _ => inferInstanceAs (Decidable (∀ call ∈ (s.threads[i]?).bind AdminThread.call?,
      call.detail.value s.store = some call.value ∨
        ∀ t ∈ s.threads.eraseIdx i, t.detail? ≠ some call.detail))
  | .rename _ => isTrue trivial
  | .assign _ => isTrue trivial
  | .mutate _ _ => isTrue trivial

/-! ## What a commit does to the details and the events -/

section

variable {s s' : FileStore}

theorem contains_of_name {p : ProjectID} {name : GoString}
    (h : (Detail.name p).value s = some name) : s.projects.contains p = true := by
  obtain ⟨project, hget, -⟩ := Option.map_eq_some_iff.mp h
  exact KeyMap.contains_of_get? hget

theorem name_applied {r : JournalRecord} (h : s.applySecurityRecord r = .ok s')
    (p : ProjectID) : (Detail.name p).value s' =
      match r.project with
      | some project => if p = project.id then some project.name else (Detail.name p).value s
      | none => (Detail.name p).value s := by
  obtain ⟨users, rfl, -, -⟩ := applySecurityRecord_users h
  show ((s.applyParts r).projects.get? p).map Project.name = _
  rw [FileStore.applyParts_projects]
  cases r.project with
  | none => rfl
  | some project =>
    simp only [KeyMap.get?_insert, Detail.value]
    split <;> rfl

theorem role_applied {r : JournalRecord} (h : s.applySecurityRecord r = .ok s')
    (p : ProjectID) (u : UserID) : (Detail.role p u).value s' =
      match r.membership with
      | some m => if p = m.projectID ∧ u = m.userID then some m.role.text
          else (Detail.role p u).value s
      | none => (Detail.role p u).value s := by
  simp only [Detail.value, membership_applied h]
  cases r.membership with
  | none => rfl
  | some m =>
    dsimp only
    split <;> rfl

/-- A save of one of the two requests gives its detail the new value and leaves every
other detail as it was, and its event is what the project's log grows by. -/
structure Recorded (s : FileStore) (call : AdminCall) (s' : FileStore) : Prop where
  detail : call.detail.value s' = some call.value
  others : ∀ d, d ≠ call.detail → d.value s' = d.value s
  events : ∀ p, s'.auditOf p =
    if p = call.event.projectID then s.auditOf p ++ [call.event] else s.auditOf p

theorem recorded_of_commits {call : AdminCall} {ctx : ContextState}
    (h : Commits s (call.mutation ctx) s') : s' = s ∨ Recorded s call s' := by
  cases call with
  | saveProject project event =>
    cases h with
    | @saveProject _ _ _ r record logged admissible =>
      unfold FileStore.securityCommit
      cases happly : s.applySecurityRecord r with
      | error e => exact .inl rfl
      | ok next =>
        subst record
        refine .inr ⟨?_, fun d hd => ?_, fun p => ?_⟩
        · exact (name_applied happly _).trans (if_pos rfl)
        · cases d with
          | name p =>
            exact (name_applied happly p).trans (if_neg fun hp => hd (congrArg Detail.name hp))
          | role p u => exact role_applied happly p u
        · exact auditOf_applied happly p
  | putMembership user membership event =>
    cases h with
    | @putMembership _ _ _ _ replaced _ r replaces record same logged admissible =>
      obtain ⟨hproject, huser, hrole⟩ := replaceMembership_same replaces
      unfold FileStore.securityCommit
      cases happly : s.applySecurityRecord r with
      | error e => exact .inl rfl
      | ok next =>
        subst record
        have hvalue : ∀ p u, (Detail.role p u).value next =
            if p = membership.projectID ∧ u = membership.userID then some membership.role.text
            else (Detail.role p u).value s := by
          intro p u
          rw [role_applied happly, ← hproject, ← huser, ← hrole]
        refine .inr ⟨?_, fun d hd => ?_, fun p => ?_⟩
        · exact (hvalue _ _).trans (if_pos ⟨rfl, rfl⟩)
        · cases d with
          | name p => exact name_applied happly p
          | role p u =>
            refine (hvalue p u).trans (if_neg ?_)
            rintro ⟨rfl, rfl⟩
            exact hd rfl
        · exact auditOf_applied happly p

/-- The other mutations leave the details of stored projects alone. The only event they
add is that of a creation. -/
theorem elsewhere_of_commits {m : Mutation} (h : Commits s m s') (hm : elsewhere m = true) :
    (∀ d : Detail, s.projects.contains d.project = true → d.value s' = d.value s) ∧
      ∀ p, s'.auditOf p = s.auditOf p ∨
        ∃ e, e.action = ascii "project.created" ∧ s'.auditOf p = s.auditOf p ++ [e] := by
  cases h with
  | saveWorkflow new => exact ⟨fun d _ => by cases d <;> rfl, fun p => .inl rfl⟩
  | createRun new definition => exact ⟨fun d _ => by cases d <;> rfl, fun p => .inl rfl⟩
  | saveRun known version definition =>
    exact ⟨fun d _ => by cases d <;> rfl, fun p => .inl rfl⟩
  | @createProject _ _ _ project membership event r record new own _ admissible =>
    unfold FileStore.securityCommit
    cases happly : s.applySecurityRecord r with
    | error e => exact ⟨fun _ _ => rfl, fun _ => .inl rfl⟩
    | ok next =>
      subst record
      have hother : ∀ {p}, s.projects.contains p = true → p ≠ project.id := by
        rintro p hp rfl
        rw [new] at hp
        cases hp
      refine ⟨fun d hd => ?_, fun p => ?_⟩
      · cases d with
        | name p => exact (name_applied happly p).trans (if_neg (hother hd))
        | role p u =>
          exact (role_applied happly p u).trans (if_neg fun hkey => hother hd (hkey.1.trans own))
      · rw [auditOf_applied happly]
        dsimp only
        split
        · exact .inr ⟨event, of_decide_eq_true hm, rfl⟩
        · exact .inl rfl
  | saveProject record logged admissible => cases hm
  | putMembership replaces record same logged admissible => cases hm
  | @saveWorkflowForProject _ _ _ r record admissible =>
    unfold FileStore.securityCommit
    cases happly : s.applySecurityRecord r with
    | error e => exact ⟨fun _ _ => rfl, fun _ => .inl rfl⟩
    | ok next =>
      subst record
      refine ⟨fun d _ => ?_, fun p => .inl (auditOf_applied happly p)⟩
      cases d with
      | name p => exact name_applied happly p
      | role p u => exact role_applied happly p u

end

/-! ## Requests that are up to date -/

/-- The event of a save, given the value its detail had. -/
def AdminCall.Describes (old : Option GoString) : AdminCall → Prop
  | .saveProject project event => event.projectID = project.id ∧
      event.action = ascii "project.updated" ∧
      (∃ name, old = some name ∧ event.metadata.get? (ascii "old_name") = some name) ∧
      event.metadata.get? (ascii "new_name") = some project.name
  | .putMembership _ membership event => event.projectID = membership.projectID ∧
      event.resourceID = membership.userID ∧ event.action = ascii "membership.updated" ∧
      event.metadata.get? (ascii "old_role") = some (old.getD []) ∧
      event.metadata.get? (ascii "new_role") = some membership.role.text

/-- What a request has read is what the store has, and the project of a request that has
been let through is stored. -/
def AdminThread.Abreast (store : FileStore) : AdminThread → Prop
  | .updating request (.buildingEvent old _ _) => old.id = request.projectID ∧
      (Detail.name request.projectID).value store = some old.name
  | .assigning request .loadingMembership => store.projects.contains request.projectID = true
  | .assigning request (.listingMemberships _ existing) =>
      store.projects.contains request.projectID = true ∧
      (Detail.role request.projectID request.userID).value store =
        existing.map fun m => m.role.text
  | .assigning request (.puttingMembership _ existing) =>
      store.projects.contains request.projectID = true ∧
      (Detail.role request.projectID request.userID).value store =
        existing.map fun m => m.role.text
  | .saving call _ => store.projects.contains call.detail.project = true ∧
      call.Describes (call.detail.value store)
  | _ => True

namespace AdminThread

variable {s s' : FileStore} {t : AdminThread}

theorem Abreast.known (h : t.Abreast s) {d : Detail} (hd : t.detail? = some d) :
    s.projects.contains d.project = true := by
  unfold detail? at hd
  split at hd
  · cases hd
    exact contains_of_name h.2
  · cases hd
    exact h.1
  · cases hd
    exact h.1
  · cases hd
    exact h.1
  · cases hd

/-- A request stays up to date while the value it has read stays. -/
theorem Abreast.frame (h : t.Abreast s)
    (hprojects : ∀ p, s.projects.contains p = true → s'.projects.contains p = true)
    (hvalue : ∀ d, t.detail? = some d → d.value s' = d.value s) : t.Abreast s' := by
  unfold Abreast at h ⊢
  split at h
  · exact ⟨h.1, (hvalue _ rfl).trans h.2⟩
  · exact hprojects _ h
  · exact ⟨hprojects _ h.1, (hvalue _ rfl).trans h.2⟩
  · exact ⟨hprojects _ h.1, (hvalue _ rfl).trans h.2⟩
  · refine ⟨hprojects _ h.1, ?_⟩
    rw [hvalue _ rfl]
    exact h.2
  · trivial

end AdminThread

theorem RenameRequest.next_cases {α : Type} (result : Except APIError α)
    (phase : α → RenamePhase) : (∃ e, RenameRequest.next result phase = .refused e) ∨
      ∃ value, result = .ok value ∧ RenameRequest.next result phase = phase value := by
  cases result with
  | error e => exact .inl ⟨e, rfl⟩
  | ok value => exact .inr ⟨value, rfl, rfl⟩

/-- Reading the project and building the event from it leave a rename up to date. -/
theorem RenameRequest.step_abreast (request : RenameRequest) {store : FileStore}
    (hs : Tended store) (input : StepInput) {phase : RenamePhase}
    (h : (AdminThread.updating request phase).Abreast store) :
    (request.step store input phase).Abreast store := by
  cases phase with
  | loadingPrincipal =>
    simp only [step, loadPrincipal]
    rcases next_cases _ fun _ : Unit => RenamePhase.loadingPrincipalMembership with
      ⟨e, he⟩ | ⟨_, -, he⟩ <;> rw [he] <;> trivial
  | loadingPrincipalMembership =>
    simp only [step, loadPrincipalMembership]
    rcases next_cases _ RenamePhase.loadingProject with ⟨e, he⟩ | ⟨_, -, he⟩ <;>
      rw [he] <;> trivial
  | loadingProject name =>
    simp only [step, loadProject]
    rcases next_cases _ fun old => RenamePhase.buildingEvent old name input.now with
      ⟨e, he⟩ | ⟨old, hold, he⟩
    · rw [he]
      trivial
    · rw [he]
      obtain ⟨found, hread, hold⟩ := bind_eq_ok.mp hold
      obtain ⟨-, rfl⟩ := reading_eq_ok.mp hread
      have hget := required_ok_iff.mp hold
      refine ⟨(hs.references.creators _ _ hget).1, ?_⟩
      rw [Detail.value, hget]
      rfl
  | buildingEvent old name now =>
    obtain ⟨hid, hname⟩ := h
    simp only [step, buildEvent]
    split
    · trivial
    · split
      · trivial
      · refine ⟨?_, hid.symm, rfl, ⟨old.name, ?_, rfl⟩, rfl⟩
        · exact hid ▸ contains_of_name hname
        · exact hid ▸ hname
  | refused e => trivial

/-- The same for an assignment, whose project is known because the principal is one of
its members. -/
theorem MemberRequest.prepare_abreast (request : MemberRequest) {store : FileStore}
    (hs : Tended store) (input : StepInput) {phase : Phase}
    (h : (AdminThread.assigning request phase).Abreast store) :
    (request.prepare store input phase).Abreast store := by
  cases phase with
  | loadingPrincipal =>
    simp only [prepare, step, loadPrincipal]
    repeat' split
    all_goals trivial
  | loadingPrincipalMembership =>
    simp only [prepare, step]
    rcases request.loadPrincipalMembership_cases store input with
      ⟨response, hphase⟩ | ⟨hphase, m, hm⟩
    · rw [hphase]
      trivial
    · rw [hphase]
      exact (hs.references.members _ _ m hm).2.2.1
  | loadingMembership =>
    simp only [prepare, step, loadMembership]
    split
    · trivial
    · split
      · exact ⟨h, rfl⟩
      · exact ⟨h, rfl⟩
  | listingMemberships now existing =>
    simp only [prepare, step]
    rcases request.listMemberships_cases store input now existing with
      ⟨response, hphase⟩ | ⟨hphase, -⟩
    · rw [hphase]
      trivial
    · rw [hphase]
      exact h
  | puttingMembership now existing =>
    obtain ⟨hknown, hrole⟩ := h
    simp only [prepare, buildEvent]
    split
    · trivial
    · refine ⟨hknown, rfl, rfl, rfl, ?_, rfl⟩
      show some _ = some (((Detail.role request.projectID request.userID).value store).getD [])
      rw [hrole]
  | responded response => trivial

/-! ## Along a run -/

theorem AdminCall.save_cases (call : AdminCall) (store : FileStore) (input : StepInput)
    (reply : Reply) : (∃ reply', (call.save store input reply).2 = .responded reply') ∧
      ((call.save store input reply).1 = store ∨
        ∃ c, store.prepare (call.mutation input.ctx) = .ok (some c) ∧
          (call.save store input reply).1 = c.next) := by
  unfold save
  split
  · exact ⟨⟨_, rfl⟩, .inl rfl⟩
  · rename_i next hnext
    refine ⟨⟨_, rfl⟩, ?_⟩
    rcases commit_ok hnext with ⟨-, rfl⟩ | ⟨c, hc, rfl⟩
    · exact .inl rfl
    · exact .inr ⟨c, hc, rfl⟩

theorem mem_set_cases {α : Type} {l : List α} {i : Nat} {a b : α} (h : b ∈ l.set i a) :
    b = a ∨ b ∈ l.eraseIdx i := by
  obtain ⟨j, hj⟩ := List.mem_iff_getElem?.mp h
  by_cases hij : i = j
  · subst hij
    rw [List.getElem?_set_self'] at hj
    obtain ⟨-, -, rfl⟩ := Option.map_eq_some_iff.mp hj
    exact .inl rfl
  · rw [List.getElem?_set_ne hij] at hj
    exact .inr (List.mem_eraseIdx_iff_getElem?.mpr ⟨j, Ne.symm hij, hj⟩)

/-- The log of every project stays, or grows by an event that tells of the step. -/
def Grows (s s' : FileStore) : Prop :=
  ∀ p, s'.auditOf p = s.auditOf p ∨
    ∃ e, s'.auditOf p = s.auditOf p ++ [e] ∧ Tells e s s'

theorem Grows.refl (s : FileStore) : Grows s s := fun _ => .inl rfl

theorem Recorded.tells {s s' : FileStore} {call : AdminCall} (h : Recorded s call s')
    (hold : call.Describes (call.detail.value s)) : Tells call.event s s' := by
  cases call with
  | saveProject project event =>
    obtain ⟨hid, haction, ⟨name, hname, holdName⟩, hnewName⟩ := hold
    refine ⟨fun _ => ?_, fun haction' => ?_⟩
    · obtain ⟨old, hgetOld, rfl⟩ := Option.map_eq_some_iff.mp hname
      obtain ⟨new, hgetNew, hnew⟩ := Option.map_eq_some_iff.mp h.detail
      rw [AdminCall.event, hid]
      exact ⟨old, new, hgetOld, hgetNew, holdName, hnewName.trans (congrArg some hnew.symm)⟩
    · rw [AdminCall.event, haction] at haction'
      exact absurd haction' (by decide +kernel)
  | putMembership user membership event =>
    obtain ⟨hid, hresource, haction, holdRole, hnewRole⟩ := hold
    refine ⟨fun haction' => ?_, fun _ => ?_⟩
    · rw [AdminCall.event, haction] at haction'
      exact absurd haction' (by decide +kernel)
    · obtain ⟨new, hgetNew, hnew⟩ := Option.map_eq_some_iff.mp h.detail
      rw [AdminCall.event, hid, hresource]
      exact ⟨new, hgetNew, holdRole, hnewRole.trans (congrArg some hnew.symm)⟩

theorem Recorded.grows {s s' : FileStore} {call : AdminCall} (h : Recorded s call s')
    (hold : call.Describes (call.detail.value s)) : Grows s s' := by
  intro p
  rw [h.events p]
  split
  · exact .inr ⟨call.event, rfl, h.tells hold⟩
  · exact .inl rfl

/-- An event of another kind claims nothing. -/
theorem tells_creation {e : AuditEvent} (h : e.action = ascii "project.created")
    (s s' : FileStore) : Tells e s s' := by
  refine ⟨fun hname => ?_, fun hrole => ?_⟩
  · rw [h] at hname
    exact absurd hname (by decide +kernel)
  · rw [h] at hrole
    exact absurd hrole (by decide +kernel)

structure AdminServer.UpToDate (s : AdminServer) : Prop where
  tended : Tended s.store
  abreast : ∀ t ∈ s.threads, t.Abreast s.store

namespace AdminServer.UpToDate

variable {s s' : AdminServer}

theorem empty : UpToDate {} := ⟨tended_empty, fun _ ht => absurd ht List.not_mem_nil⟩

theorem arrive (h : s.UpToDate) {t : AdminThread} (ht : t.Abreast s.store) :
    (s.arrive t).UpToDate := by
  refine ⟨h.tended, fun t' ht' => ?_⟩
  rcases List.mem_append.mp ht' with hold | hnew
  · exact h.abreast t' hold
  · cases List.mem_singleton.mp hnew
    exact ht

theorem mutate (h : s.UpToDate) {m : Mutation} (hm : elsewhere m = true) :
    UpToDate { s with store := s.store.mutate m } ∧ Grows s.store (s.store.mutate m) := by
  unfold FileStore.mutate
  split
  · rename_i c hc
    obtain ⟨htended, hpermanent, hcommits⟩ := h.tended.commits hc
    obtain ⟨hdetails, hevents⟩ := elsewhere_of_commits hcommits hm
    refine ⟨⟨htended, fun t ht => ?_⟩, fun p => ?_⟩
    · have hold := h.abreast t ht
      exact hold.frame (fun _ hp => hpermanent.project hp) fun d hd => hdetails d (hold.known hd)
    · rcases hevents p with hsame | ⟨e, haction, hgrown⟩
      · exact .inl hsame
      · exact .inr ⟨e, hgrown, tells_creation haction _ _⟩
  · exact ⟨h, .refl _⟩

/-- A request that reads or builds its event leaves the store alone. -/
theorem read (h : s.UpToDate) (i : Nat) {t : AdminThread} (ht : t.Abreast s.store) :
    UpToDate { s with threads := s.threads.set i t } := by
  refine ⟨h.tended, fun t' ht' => ?_⟩
  rcases mem_set_cases ht' with rfl | hold
  · exact ht
  · exact h.abreast t' (List.mem_of_mem_eraseIdx hold)

/-- A save changes its own detail only, which no other request has read unless it has
the new value already. -/
theorem save (h : s.UpToDate) {i : Nat} {call : AdminCall} {reply : Reply} {input : StepInput}
    (ht : s.threads[i]? = some (.saving call reply))
    (hquiet : s.Undisturbed (.advance i input)) :
    UpToDate ⟨(call.save s.store input reply).1,
        s.threads.set i (call.save s.store input reply).2⟩ ∧
      Grows s.store (call.save s.store input reply).1 := by
  obtain ⟨⟨reply', hphase⟩, hstore⟩ := call.save_cases s.store input reply
  rw [hphase]
  rcases hstore with hsame | ⟨c, hc, hnext⟩
  · rw [hsame]
    exact ⟨h.read i trivial, .refl _⟩
  · rw [hnext]
    obtain ⟨htended, hpermanent, hcommits⟩ := h.tended.commits hc
    rcases recorded_of_commits hcommits with hsame | hrecorded
    · rw [hsame]
      exact ⟨h.read i trivial, .refl _⟩
    · have hold := h.abreast _ (List.mem_of_getElem? ht)
      refine ⟨⟨htended, fun t' ht' => ?_⟩, hrecorded.grows hold.2⟩
      rcases mem_set_cases ht' with rfl | hother
      · trivial
      · refine (h.abreast t' (List.mem_of_mem_eraseIdx hother)).frame
          (fun _ hp => hpermanent.project hp) fun d hd => ?_
        by_cases hdetail : d = call.detail
        · subst hdetail
          have hcall : call ∈ (s.threads[i]?).bind AdminThread.call? := by
            rw [ht]
            rfl
          rcases hquiet call hcall with hvalue | hfree
          · rw [hrecorded.detail, hvalue]
          · exact absurd hd (hfree t' hother)
        · exact hrecorded.others d hdetail

theorem step (h : s.UpToDate) {l : AdminStep} (hquiet : s.Undisturbed l)
    (hstep : s.step l = some s') : s'.UpToDate ∧ Grows s.store s'.store := by
  cases l with
  | rename request =>
    cases hstep
    exact ⟨h.arrive trivial, .refl _⟩
  | assign request =>
    cases hstep
    exact ⟨h.arrive trivial, .refl _⟩
  | mutate m hm =>
    cases hstep
    exact h.mutate hm
  | advance i input =>
    obtain ⟨t, ht, rfl⟩ := Option.map_eq_some_iff.mp hstep
    have hold := h.abreast t (List.mem_of_getElem? ht)
    cases t with
    | updating request phase =>
      exact ⟨h.read i (request.step_abreast h.tended input hold), .refl _⟩
    | assigning request phase =>
      exact ⟨h.read i (request.prepare_abreast h.tended input hold), .refl _⟩
    | saving call reply => exact h.save ht hquiet
    | responded reply => exact ⟨h.read i trivial, .refl _⟩

end AdminServer.UpToDate

/-- Whatever renames and assignments interleave: as long as no save changes what another
request has read and not yet saved, every event of a log was appended by a step that it
tells of. -/
theorem audit_log_tells_the_history {steps : List AdminStep} {s : AdminServer}
    (hrun : runLabels AdminServer.step {} steps = some s)
    (hquiet : Meets AdminServer.step AdminServer.Undisturbed {} steps) (p : ProjectID)
    (e : AuditEvent) (he : e ∈ s.store.auditOf p) :
    ∃ before l after t t', steps = before ++ l :: after ∧
      runLabels AdminServer.step {} before = some t ∧ t.step l = some t' ∧
      t'.store.auditOf p = t.store.auditOf p ++ [e] ∧ Tells e t.store t'.store := by
  have hbrought := hquiet.brought (I := AdminServer.UpToDate)
    (P := fun t : AdminServer => e ∈ t.store.auditOf p)
    (fun _ _ _ hc hstep h => (h.step hc hstep).1) .empty hrun he
  rcases hbrought with hnil | ⟨before, l, after, t, t', hsteps, hbefore, hstep, ht, hc, hnew, hin⟩
  · exact absurd hnil List.not_mem_nil
  · refine ⟨before, l, after, t, t', hsteps, hbefore, hstep, ?_⟩
    rcases (ht.step hc hstep).2 p with hsame | ⟨e', hgrown, htells⟩
    · rw [hsame] at hin
      exact absurd hin hnew
    · rw [hgrown] at hin
      rcases List.mem_append.mp hin with hold | hlast
      · exact absurd hold hnew
      · cases List.mem_singleton.mp hlast
        exact ⟨hgrown, htells⟩

/-! ## Two requests at once -/

def renameSample (name : String) : RenameRequest := ⟨alice, sampleProject, .ok (ascii name)⟩

def assignSample : MemberRequest := ⟨alice, sampleProject, bob, ascii "Bob", .operator⟩

/-- A rename and an assignment in the same project, both up to their saves before the
first of them saves. -/
def renameAndAssign : List AdminStep :=
  [.mutate createSampleProject rfl, .rename (renameSample "first"), .assign assignSample] ++
    List.replicate 4 (.advance 0 { now := 2, randomID := some (ascii "1") }) ++
    List.replicate 4 (.advance 1 { now := 2, randomID := some (ascii "2") }) ++
    [.advance 1 {}, .advance 0 {}]

theorem audit_log_tells_renameAndAssign :
    ∃ before l after t t', renameAndAssign = before ++ l :: after ∧
      runLabels AdminServer.step {} before = some t ∧ t.step l = some t' ∧
      t'.store.auditOf sampleProject =
        t.store.auditOf sampleProject ++ [assignSample.auditEvent 2 none (ascii "2")] ∧
      Tells (assignSample.auditEvent 2 none (ascii "2")) t.store t'.store := by
  obtain ⟨s, hrun, he⟩ := exists_of_runLabels AdminServer.step {} renameAndAssign
    (fun s => assignSample.auditEvent 2 none (ascii "2") ∈ s.store.auditOf sampleProject)
    (by decide +kernel)
  exact audit_log_tells_the_history hrun (by decide +kernel) sampleProject _ he

/-- Two renames that have both read the name before either saves, and the first save. -/
def twoRenames : List AdminStep :=
  [.mutate createSampleProject rfl, .rename (renameSample "first"),
    .rename (renameSample "second")] ++
    List.replicate 4 (.advance 0 { now := 2, randomID := some (ascii "1") }) ++
    List.replicate 4 (.advance 1 { now := 2, randomID := some (ascii "2") }) ++
    [.advance 0 {}]

/-- The event of the second rename, built from the name it has read. -/
def staleEvent : AuditEvent :=
  (renameSample "second").auditEvent ⟨sampleProject, ascii "P", alice, 1, 1⟩ (ascii "second") 2
    (ascii "2")

/-- The second save is accepted with an old name that had been replaced. -/
theorem second_rename_tells_a_stale_name :
    ∃ t t', runLabels AdminServer.step {} twoRenames = some t ∧
      t.step (.advance 1 {}) = some t' ∧
      t'.store.auditOf sampleProject = t.store.auditOf sampleProject ++ [staleEvent] ∧
      ¬ Tells staleEvent t.store t'.store := by
  obtain ⟨t, ht, hlast⟩ := exists_of_runLabels AdminServer.step {} twoRenames
    (fun t => (Detail.name sampleProject).value t.store = some (ascii "first") ∧
      (t.step (.advance 1 {})).any (fun t' =>
        t'.store.auditOf sampleProject = t.store.auditOf sampleProject ++ [staleEvent]) = true)
    (by decide +kernel)
  obtain ⟨hname, hlast⟩ := hlast
  obtain ⟨t', ht', hgrown⟩ := (Option.any_eq_true _ _).mp hlast
  refine ⟨t, t', ht, ht', of_decide_eq_true hgrown, fun htells => ?_⟩
  obtain ⟨old, new, hold, -, htold, -⟩ := htells.name rfl
  have hfirst : old.name = ascii "first" := by
    have hvalue : (Detail.name sampleProject).value t.store = some old.name := by
      rw [Detail.value]
      exact congrArg (Option.map Project.name) hold
    exact Option.some.inj (hvalue.symm.trans hname)
  rw [hfirst] at htold
  exact absurd htold (by decide +kernel)

end ForgeFlow.Api
