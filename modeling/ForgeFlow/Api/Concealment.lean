import ForgeFlow.Api.Isolation

/-!
# What the resources of other projects show

Two stores that differ only in workflows and runs of projects a user is no member of.
A lookup that finds such a resource goes on to the check of the membership, and one
that finds nothing stops with an answer of its own, so the two can be told apart. A
new run also meets the run IDs of all projects.
-/

namespace ForgeFlow.Api

open ForgeFlow.Base ForgeFlow.Workflow ForgeFlow.Execution ForgeFlow.Security
  ForgeFlow.Persistence

variable {u : UserID} {id : WorkflowID} {snapshot : WorkflowRunSnapshot}

/-! ## Stores that differ in foreign resources -/

/-- A workflow is owned by a project of which the user is no member. -/
def ForeignOwned (s : FileStore) (u : UserID) (id : WorkflowID) : Prop :=
  ∃ o, s.ownerships.get? id = some o ∧ s.membership? o.projectID u = none

def ForeignWorkflow (s : FileStore) (u : UserID) (id : WorkflowID) : Prop :=
  s.workflows.contains id = true ∧ ForeignOwned s u id

def ForeignRun (s : FileStore) (u : UserID) (id : RunID) : Prop :=
  ∃ run, s.runs.get? id = some run ∧ ForeignOwned s u run.workflowID

/-- Missing, or owned by a foreign project. -/
def OutsideWorkflow (s : FileStore) (u : UserID) (id : WorkflowID) : Prop :=
  s.workflows.get? id = none ∧ s.ownerships.get? id = none ∨ ForeignOwned s u id

def OutsideRun (s : FileStore) (u : UserID) (id : RunID) : Prop :=
  s.runs.get? id = none ∨ ForeignRun s u id

/-- The stores agree on everything but the existence and content of workflows and runs
of foreign projects. -/
structure Alike (u : UserID) (s t : FileStore) : Prop where
  users : s.users = t.users
  projects : s.projects = t.projects
  memberships : s.memberships = t.memberships
  auditEvents : s.auditEvents = t.auditEvents
  auditIDs : s.auditIDs = t.auditIDs
  workflows : ∀ id, s.workflows.get? id = t.workflows.get? id ∧
      s.ownerships.get? id = t.ownerships.get? id ∨
    OutsideWorkflow s u id ∧ OutsideWorkflow t u id
  runs : ∀ id, s.runs.get? id = t.runs.get? id ∨ OutsideRun s u id ∧ OutsideRun t u id

theorem Alike.membership? {s t : FileStore} (h : Alike u s t) (p : ProjectID)
    (v : UserID) : s.membership? p v = t.membership? p v := by
  simp only [FileStore.membership?, FileStore.membersOf, h.memberships]

/-! ## Lookups -/

/-- The answer to a user who is no member of the project. -/
def outsiderError (s : FileStore) (principal : Principal) : APIError :=
  match s.users.get? principal.userID with
  | none => apiError 403 "forbidden" "authenticated user is not provisioned" ""
  | some user =>
    if user.disabled then apiError 403 "user_disabled" "authenticated user is disabled" ""
    else apiError 404 "project_not_found" "project was not found" "project_id"

def workflowNotFound : APIError :=
  apiError 404 "workflow_not_found" "workflow was not found" "id"

def runNotFound : APIError :=
  apiError 404 "run_not_found" "workflow run was not found" "runID"

/-- The answer to an outsider has a code of its own. -/
theorem outsiderError_ne (s : FileStore) (principal : Principal) :
    outsiderError s principal ≠ workflowNotFound ∧ outsiderError s principal ≠ runNotFound := by
  unfold outsiderError
  split
  · decide +kernel
  · split <;> decide +kernel

section Lookups

variable {s t : FileStore} {ctx : ContextState} {principal : Principal} {permission : Permission}

theorem reading_of_live {α : Type} (hctx : contextError ctx = .ok ()) (value : α) :
    reading ctx value = .ok value :=
  reading_eq_ok.mpr ⟨hctx, rfl⟩

theorem authorizeProject_outsider {p : ProjectID} (hctx : contextError ctx = .ok ())
    (h : s.membership? p principal.userID = none) :
    authorizeProject s ctx principal p permission = .error (outsiderError s principal) := by
  unfold authorizeProject outsiderError
  simp only [reading_of_live hctx, h]
  cases s.users.get? principal.userID with
  | none => rfl
  | some user => cases hd : user.disabled <;> simp [required, firstError, hd]

theorem authorizeProject_alike (h : Alike principal.userID s t) (p : ProjectID) :
    authorizeProject s ctx principal p permission =
      authorizeProject t ctx principal p permission := by
  unfold authorizeProject
  rw [h.users, h.membership?]

section Outside

open Classical

/-- What a lookup of a workflow comes to when it is outside. -/
theorem loadOwnedWorkflow_outside (permission : Permission)
    (hid : validResourceID id = true) (hctx : contextError ctx = .ok ())
    (h : OutsideWorkflow s principal.userID id) :
    loadOwnedWorkflow s ctx principal id permission =
      .error (if ForeignWorkflow s principal.userID id then outsiderError s principal
        else workflowNotFound) := by
  unfold loadOwnedWorkflow loadWorkflow
  cases hworkflow : s.workflows.get? id with
  | none =>
    have hforeign : ¬ForeignWorkflow s principal.userID id := fun hf => by
      simp [ForeignWorkflow, KeyMap.contains, hworkflow] at hf
    simp [reading_of_live hctx, hid, firstError, required, hforeign, workflowNotFound]
  | some d =>
    obtain ⟨hnone, -⟩ | ⟨o, ho, hmember⟩ := h
    · rw [hnone] at hworkflow
      cases hworkflow
    · have hforeign : ForeignWorkflow s principal.userID id :=
        ⟨by simp [KeyMap.contains, hworkflow], o, ho, hmember⟩
      simp [reading_of_live hctx, hid, firstError, required, hforeign, ho,
        authorizeProject_outsider hctx hmember]

/-- What a lookup of a run comes to when the run, or the workflow it names, is outside. -/
theorem loadRun_outside (permission : Permission) {id : RunID} (hid : validResourceID id = true)
    (hctx : contextError ctx = .ok ())
    (h : ∀ run, s.runs.get? id = some run →
      s.ownerships.get? run.workflowID = none ∨ ForeignOwned s principal.userID run.workflowID) :
    loadRun s ctx principal id permission =
      .error (if ForeignRun s principal.userID id then outsiderError s principal
        else runNotFound) := by
  unfold loadRun
  cases hrun : s.runs.get? id with
  | none =>
    have hforeign : ¬ForeignRun s principal.userID id := by
      rintro ⟨run, hget, -⟩
      rw [hrun] at hget
      cases hget
    simp [reading_of_live hctx, hid, firstError, required, hforeign, runNotFound]
  | some run =>
    rcases h run hrun with hnone | hforeign
    · have hforeign : ¬ForeignRun s principal.userID id := by
        rintro ⟨run', hget, o, ho, -⟩
        rw [hrun] at hget
        cases hget
        rw [hnone] at ho
        cases ho
      simp [reading_of_live hctx, hid, firstError, required, hforeign, hnone, runNotFound]
    · have hrunForeign : ForeignRun s principal.userID id := ⟨run, hrun, hforeign⟩
      obtain ⟨o, ho, hmember⟩ := hforeign
      simp [reading_of_live hctx, hid, firstError, required, hrunForeign, ho,
        authorizeProject_outsider hctx hmember]

end Outside

end Lookups

/-! ## Telling two stores apart -/

/-- Two outcomes that are the same when the condition holds, and different errors when
it does not. -/
def Told {α : Type} (same : Prop) (x y : Except APIError α) : Prop :=
  same ∧ x = y ∨ ¬same ∧ ∃ e e', x = .error e ∧ y = .error e' ∧ e ≠ e'

section Told

variable {α β : Type} {same : Prop} {x y : Except APIError α}

theorem Told.congr {same' : Prop} (h : Told same x y) (hsame : same ↔ same') :
    Told same' x y := by
  rwa [Told, ← hsame]

theorem Told.of_eq (hsame : same) (h : x = y) : Told same x y := .inl ⟨hsame, h⟩

/-- Two lookups that fail, each with one of two errors, are told apart by which. -/
theorem Told.of_errors {P Q : Prop} [Decidable P] [Decidable Q] {a b : APIError} (hab : a ≠ b)
    (hx : x = .error (if P then a else b)) (hy : y = .error (if Q then a else b)) :
    Told (P ↔ Q) x y := by
  subst hx hy
  by_cases hP : P <;> by_cases hQ : Q
  · exact .inl ⟨iff_of_true hP hQ, by rw [if_pos hP, if_pos hQ]⟩
  · exact .inr ⟨fun h => hQ (h.mp hP), a, b, by rw [if_pos hP], by rw [if_neg hQ], hab⟩
  · exact .inr ⟨fun h => hP (h.mpr hQ), b, a, by rw [if_neg hP], by rw [if_pos hQ], hab.symm⟩
  · exact .inl ⟨iff_of_false hP hQ, by rw [if_neg hP, if_neg hQ]⟩

theorem Told.bind {f g : α → Except APIError β} (h : Told same x y)
    (hf : ∀ a, x = .ok a → f a = g a) : Told same (x >>= f) (y >>= g) := by
  rcases h with ⟨hsame, rfl⟩ | ⟨hsame, e, e', rfl, rfl, hne⟩
  · refine .inl ⟨hsame, ?_⟩
    cases x with
    | error e => rfl
    | ok a => exact hf a rfl
  · exact .inr ⟨hsame, e, e', rfl, rfl, hne⟩

/-- A check in front of both, on which the condition may rely. -/
theorem Told.after {P : Prop} {check : Except APIError Unit} (hP : check = .ok () ↔ P)
    (h : Told same x y) : Told (P → same) (check >>= fun _ => x) (check >>= fun _ => y) := by
  cases hcheck : check with
  | error e =>
    rw [hcheck] at hP
    exact .inl ⟨fun p => absurd (hP.mpr p) nofun, rfl⟩
  | ok a =>
    have p : P := hP.mp hcheck
    rcases h with ⟨hsame, h⟩ | ⟨hsame, h⟩
    · exact .inl ⟨fun _ => hsame, h⟩
    · exact .inr ⟨fun hp => hsame (hp p), h⟩

end Told

section Compare

variable {s t : FileStore} {ctx : ContextState} {principal : Principal} {permission : Permission}

theorem Alike.outsiderError (h : Alike principal.userID s t) :
    outsiderError s principal = outsiderError t principal := by
  unfold Api.outsiderError
  rw [h.users]

theorem Alike.foreignOwned (h : Alike u s t) (hid : s.ownerships.get? id = t.ownerships.get? id) :
    ForeignOwned s u id ↔ ForeignOwned t u id := by
  simp only [ForeignOwned, hid, h.membership?]

/-- What a member's project owns is the same in both. -/
theorem Alike.own (h : Alike u s t) {p : ProjectID}
    (hproject : workflowProject s id = some p) {m : Membership}
    (hmember : s.membership? p u = some m) :
    s.workflows.get? id = t.workflows.get? id ∧ s.ownerships.get? id = t.ownerships.get? id := by
  obtain ⟨o, ho, rfl⟩ := Option.map_eq_some_iff.mp hproject
  rcases h.workflows id with hsame | ⟨⟨-, hnone⟩ | ⟨o', ho', hforeign⟩, -⟩
  · exact hsame
  · rw [hnone] at ho
    cases ho
  · rw [ho'] at ho
    cases ho
    rw [hforeign] at hmember
    cases hmember

theorem loadWorkflow_congr (h : s.workflows.get? id = t.workflows.get? id) :
    loadWorkflow s ctx id = loadWorkflow t ctx id := by
  unfold loadWorkflow
  rw [h]

theorem loadOwnedWorkflow_told (h : Alike principal.userID s t) (id : WorkflowID) :
    Told (validResourceID id = true → contextError ctx = .ok () →
        (ForeignWorkflow s principal.userID id ↔ ForeignWorkflow t principal.userID id))
      (loadOwnedWorkflow s ctx principal id permission)
      (loadOwnedWorkflow t ctx principal id permission) := by
  classical
  by_cases hid : validResourceID id = true
  swap
  · refine .of_eq (fun hvalid => absurd hvalid hid) ?_
    simp [loadOwnedWorkflow, firstError, hid]
  cases hctx : contextError ctx with
  | error e =>
    -- nothing is read
    refine .of_eq (fun _ hok => by cases hok) ?_
    simp [loadOwnedWorkflow, loadWorkflow, reading, hctx, Except.mapError, Except.map]
  | ok a =>
    rcases h.workflows id with ⟨hworkflow, howner⟩ | ⟨hs, ht⟩
    · refine .of_eq (fun _ _ => ?_) ?_
      · simp only [ForeignWorkflow, KeyMap.contains, hworkflow, h.foreignOwned howner]
      · unfold loadOwnedWorkflow
        simp only [loadWorkflow_congr hworkflow, howner, authorizeProject_alike h]
    · have hload := loadOwnedWorkflow_outside permission hid hctx ht
      rw [← h.outsiderError] at hload
      exact (Told.of_errors (outsiderError_ne s principal).1
        (loadOwnedWorkflow_outside permission hid hctx hs) hload).congr (by simp [hid])

theorem loadRun_told (h : Alike principal.userID s t) (id : RunID) :
    Told (validResourceID id = true → contextError ctx = .ok () →
        (ForeignRun s principal.userID id ↔ ForeignRun t principal.userID id))
      (loadRun s ctx principal id permission) (loadRun t ctx principal id permission) := by
  classical
  by_cases hid : validResourceID id = true
  swap
  · refine .of_eq (fun hvalid => absurd hvalid hid) ?_
    simp [loadRun, firstError, hid]
  cases hctx : contextError ctx with
  | error e =>
    refine .of_eq (fun _ hok => by cases hok) ?_
    simp [loadRun, reading, hctx, Except.mapError, Except.map]
  | ok a =>
    -- once the run or its workflow is outside in both, each lookup ends in an error
    have houtside : (∀ run, s.runs.get? id = some run → s.ownerships.get? run.workflowID = none ∨
          ForeignOwned s principal.userID run.workflowID) →
        (∀ run, t.runs.get? id = some run → t.ownerships.get? run.workflowID = none ∨
          ForeignOwned t principal.userID run.workflowID) →
        Told (validResourceID id = true → Except.ok a = (.ok () : Except StoreError Unit) →
            (ForeignRun s principal.userID id ↔ ForeignRun t principal.userID id))
          (loadRun s ctx principal id permission) (loadRun t ctx principal id permission) := by
      intro hs ht
      have hload := loadRun_outside permission hid hctx ht
      rw [← h.outsiderError] at hload
      exact (Told.of_errors (outsiderError_ne s principal).2
        (loadRun_outside permission hid hctx hs) hload).congr (by simp [hid])
    have hforeign : ∀ {r : FileStore}, OutsideRun r principal.userID id →
        ∀ run, r.runs.get? id = some run → r.ownerships.get? run.workflowID = none ∨
          ForeignOwned r principal.userID run.workflowID := by
      rintro r (hnone | ⟨run', hrun', hforeign⟩) run hrun
      · rw [hnone] at hrun
        cases hrun
      · rw [hrun'] at hrun
        cases hrun
        exact .inr hforeign
    rcases h.runs id with hrun | ⟨hs, ht⟩
    · cases hget : s.runs.get? id with
      | none =>
        refine houtside (fun run hrun' => ?_) fun run hrun' => ?_
        · rw [hget] at hrun'
          cases hrun'
        · rw [← hrun, hget] at hrun'
          cases hrun'
      | some run =>
        rcases h.workflows run.workflowID with ⟨-, howner⟩ | ⟨hs, ht⟩
        · refine .of_eq (fun _ _ => ?_) ?_
          · simp only [ForeignRun, ← hrun, hget, Option.some.injEq, exists_eq_left',
              h.foreignOwned howner]
          · unfold loadRun
            simp only [← hrun, hget, reading_of_live hctx, required, ok_do, howner,
              authorizeProject_alike h]
        · refine houtside (fun run' hrun' => ?_) fun run' hrun' => ?_
          · rw [hget] at hrun'
            cases hrun'
            exact hs.imp_left And.right
          · rw [← hrun, hget] at hrun'
            cases hrun'
            exact ht.imp_left And.right
    · exact houtside (hforeign hs) (hforeign ht)

end Compare

/-! ## The handlers -/

/-- The routes of a workflow or a run. -/
def Route.namesResource : Route → Bool
  | .workflow _ | .workflowRuns _ _ | .run _ | .runTasks _ | .runCancellation _ | .runRetry _ _
  | .runEvents _ _ => true
  | _ => false

/-- The request gets as far as looking for the workflow or run it names. -/
def Route.LooksUp (env : Surroundings) (method : Method) : Route → Prop
  | .workflow id | .run id | .runTasks id | .runEvents id _ =>
    method = .get ∧ validResourceID id = true ∧ contextError env.ctx = .ok ()
  | .workflowRuns id _ | .runCancellation id | .runRetry id _ =>
    method = .post ∧ validResourceID id = true ∧ contextError env.ctx = .ok ()
  | _ => False

/-- The workflow or run the request names is there, in a foreign project. -/
def Route.NamesForeign (s : FileStore) (u : UserID) : Route → Prop
  | .workflow id | .workflowRuns id _ => ForeignWorkflow s u id
  | .run id | .runTasks id | .runCancellation id | .runRetry id _ | .runEvents id _ =>
    ForeignRun s u id
  | _ => False

section Handlers

variable {s t : FileStore} {principal : Principal}

theorem requireMethod_ok_iff {method allowed : Method} :
    requireMethod method allowed = .ok () ↔ method = allowed := by
  simp [requireMethod]

/-- A handler that requires a method, looks its resource up, and goes on alike. -/
theorem handler_told {α : Type} {method allowed : Method} {P Q same : Prop}
    {x y : Except APIError α} {f g : α → Except APIError Action}
    (h : Told (P → Q → same) x y) (hf : ∀ a, x = .ok a → f a = g a) :
    Told (method = allowed ∧ P ∧ Q → same)
      (do
        requireMethod method allowed
        let a ← x
        f a)
      (do
        requireMethod method allowed
        let a ← y
        g a) :=
  ((h.bind hf).after requireMethod_ok_iff).congr (by simp only [and_imp])

theorem plan_told (server : ApiServer) (env : Surroundings) (h : Alike principal.userID s t)
    (hs : s.Keyed) (method : Method) {route : Route} (hroute : route.namesResource = true) :
    Told (route.LooksUp env method →
        (route.NamesForeign s principal.userID ↔ route.NamesForeign t principal.userID))
      ({ server with store := s }.plan env principal method route)
      ({ server with store := t }.plan env principal method route) := by
  cases route with
  | workflow id => exact handler_told (loadOwnedWorkflow_told h id) fun _ _ => rfl
  | workflowRuns id body => exact handler_told (loadOwnedWorkflow_told h id) fun _ _ => rfl
  | run id => exact handler_told (loadRun_told h id) fun _ _ => rfl
  | runTasks id => exact handler_told (loadRun_told h id) fun _ _ => rfl
  | runCancellation id => exact handler_told (loadRun_told h id) fun _ _ => rfl
  | runEvents id lastEventID => exact handler_told (loadRun_told h id) fun _ _ => rfl
  | runRetry id body =>
    refine handler_told (loadRun_told h id) fun source hload => ?_
    -- the definition of a run of one's own is the same in both
    obtain ⟨p, -, -, howner, user, m, -, -, hmember, -⟩ := loadRun_ok hs hload
    rw [loadWorkflow_congr (h.own howner hmember).1]
  | projects | project | projectMembers | projectMember | projectAuditEvents | workflows =>
    cases hroute

end Handlers

/-! ## Creating a run -/

def runExists (id : RunID) : APIError :=
  storeErrorResponse (.runAlreadyExists id)

theorem ne_runExists {e : APIError} {id : RunID} (h : e.code ≠ ascii "run_exists") :
    e ≠ runExists id :=
  fun he => h (he ▸ rfl)

section CreateRun

variable {s t : FileStore} {env : Surroundings}

/-- `CreateRun` of a request whose context is live, without the store it leaves. -/
theorem commit_createRun (hctx : contextError env.ctx = .ok ()) (snapshot : WorkflowRunSnapshot) :
    (commit s (.createRun env.ctx env.ctx snapshot) env.appendError).map (fun _ => ()) =
      (checkSnapshot "create workflow run: " snapshot).bind fun _ =>
      (firstError [
        (s.runs.contains snapshot.id, .runAlreadyExists snapshot.id),
        (snapshot.version ≠ 0,
          .message (ascii "create workflow run " ++ quote snapshot.id ++
            ascii ": initial version must be zero"))]).bind fun _ =>
      (s.validateRunDefinition snapshot).bind fun _ =>
      match env.appendError with
      | some text => .error (.message text)
      | none => .ok () := by
  simp only [commit, FileStore.prepare, FileStore.createRun, hctx]
  cases checkSnapshot "create workflow run: " snapshot with
  | error e => rfl
  | ok a =>
    simp only [Except.bind]
    generalize firstError _ = first
    cases first with
    | error e => rfl
    | ok a =>
      cases s.validateRunDefinition snapshot with
      | error e => rfl
      | ok a => cases env.appendError <;> rfl

theorem storeErrorResponse_message_ne (text : GoString) (id : RunID) :
    storeErrorResponse (.message text) ≠ runExists id := by
  apply ne_runExists
  unfold storeErrorResponse
  split
  · decide +kernel
  · split <;> decide +kernel

theorem validateRunDefinition_ne {e : StoreError} {id : RunID}
    (h : s.validateRunDefinition snapshot = .error e) : storeErrorResponse e ≠ runExists id := by
  have hcode : ascii "internal_error" ≠ ascii "run_exists" := by decide +kernel
  unfold FileStore.validateRunDefinition at h
  split at h
  · cases h
    exact ne_runExists hcode
  · split at h
    · cases h
      exact ne_runExists hcode
    · cases h

theorem validateRunDefinition_congr
    (h : s.workflows.get? snapshot.workflowID = t.workflows.get? snapshot.workflowID) :
    s.validateRunDefinition snapshot = t.validateRunDefinition snapshot := by
  unfold FileStore.validateRunDefinition
  rw [h]

variable {server : ApiServer} {run : WorkflowRun} {refused : ManagerError → APIError}

/-- The reply to a request for a new run. -/
def startReply (server : ApiServer) (run : WorkflowRun) (refused : ManagerError → APIError) :
    Except StoreError Unit → Reply
  | .error e => .failed (storeErrorResponse e)
  | .ok _ =>
    match server.manager.start run.id with
    | .error e => .failed (refused e)
    | .ok _ => .ok 202 (.run (runDTO { run.snapshot with version := 1 }))

theorem startRun_reply : (server.startRun env run refused).1 =
    startReply server run refused
      ((commit server.store (.createRun env.ctx env.ctx run.snapshot) env.appendError).map
        fun _ => ()) := by
  unfold ApiServer.startRun
  cases commit server.store (.createRun env.ctx env.ctx run.snapshot) env.appendError with
  | error e => rfl
  | ok store =>
    simp only [Except.map, startReply]
    cases server.manager.start run.id <;> rfl

/-- A run whose ID is taken is refused as such, and one whose ID is free never is. -/
theorem startRun_exists_iff (server : ApiServer) (hctx : contextError env.ctx = .ok ())
    (hrefused : ∀ e id, refused e ≠ runExists id) (hvalid : run.snapshot.validate = .ok ()) :
    (server.startRun env run refused).1 = .failed (runExists run.id) ↔
      server.store.runs.contains run.id = true := by
  rw [startRun_reply, commit_createRun hctx, bind_of_ok (checkSnapshot_ok_iff.mpr hvalid)]
  have hid : run.snapshot.id = run.id := rfl
  rw [hid]
  cases htaken : server.store.runs.contains run.id with
  | true => simp [firstError, Except.bind, startReply, runExists]
  | false =>
    simp only [firstError, Bool.false_eq_true, if_false, iff_false]
    split
    · exact fun h => storeErrorResponse_message_ne _ _ (Reply.failed.inj h)
    · cases hdef : server.store.validateRunDefinition run.snapshot with
      | error e => exact fun h => validateRunDefinition_ne hdef (Reply.failed.inj h)
      | ok a =>
        cases env.appendError with
        | some text => exact fun h => storeErrorResponse_message_ne _ _ (Reply.failed.inj h)
        | none =>
          simp only [Except.bind, startReply]
          cases server.manager.start run.id with
          | error e => exact fun h => hrefused e _ (Reply.failed.inj h)
          | ok manager =>
            intro h
            cases h

/-- Two stores with the definition answer alike exactly if both or neither has the ID. -/
theorem startRun_told (hctx : contextError env.ctx = .ok ())
    (hrefused : ∀ e id, refused e ≠ runExists id)
    (hworkflow : s.workflows.get? run.snapshot.workflowID =
      t.workflows.get? run.snapshot.workflowID) :
    ({ server with store := s }.startRun env run refused).1 =
        ({ server with store := t }.startRun env run refused).1 ↔
      (run.snapshot.validate = .ok () →
        (s.runs.contains run.id = true ↔ t.runs.contains run.id = true)) := by
  constructor
  · intro heq hvalid
    rw [← startRun_exists_iff { server with store := s } hctx hrefused hvalid, heq]
    exact startRun_exists_iff { server with store := t } hctx hrefused hvalid
  · intro hsame
    rw [startRun_reply, startRun_reply, commit_createRun hctx, commit_createRun hctx,
      validateRunDefinition_congr hworkflow]
    cases hcheck : checkSnapshot "create workflow run: " run.snapshot with
    | error e => rfl
    | ok a =>
      have htaken : s.runs.contains run.snapshot.id = t.runs.contains run.snapshot.id :=
        Bool.eq_iff_iff.mpr (hsame (checkSnapshot_ok_iff.mp hcheck))
      rw [htaken]
      rfl

end CreateRun

/-! ## Every request about a workflow or a run -/

section Requests

variable {s t : FileStore} {env : Surroundings} {principal : Principal} {method : Method}
  {server : ApiServer} {route : Route}

theorem loadOwnedWorkflow_live {ctx : ContextState} {permission : Permission}
    {found : WorkflowDefinition × WorkflowOwnership}
    (h : loadOwnedWorkflow s ctx principal id permission = .ok found) :
    contextError ctx = .ok () := by
  obtain ⟨-, h⟩ := do_unit_eq_ok.mp h
  obtain ⟨definition, hload, -⟩ := do_eq_ok.mp h
  exact (reading_eq_ok.mp hload).1

theorem loadRun_live {ctx : ContextState} {id : RunID} {permission : Permission}
    (h : loadRun s ctx principal id permission = .ok snapshot) : contextError ctx = .ok () := by
  obtain ⟨-, h⟩ := do_unit_eq_ok.mp h
  obtain ⟨found, hread, -⟩ := do_eq_ok.mp h
  exact (reading_eq_ok.mp hread).1

/-- The only change of the store these requests make is a new run. -/
def Action.Plain (env : Surroundings) : Action → Prop
  | .mutate _ _ _ _ => False
  | .startRun _ refused =>
    contextError env.ctx = .ok () ∧ ∀ e id, refused e ≠ runExists id
  | _ => True

theorem plan_plain {action : Action} (hroute : route.namesResource = true)
    (h : server.plan env principal method route = .ok action) : action.Plain env := by
  cases route with
  | workflow id =>
    obtain ⟨-, h⟩ := do_unit_eq_ok.mp h
    obtain ⟨found, -, h⟩ := do_eq_ok.mp h
    cases h
    trivial
  | workflowRuns id body =>
    obtain ⟨-, h⟩ := do_unit_eq_ok.mp h
    obtain ⟨found, hload, h⟩ := do_eq_ok.mp h
    obtain ⟨-, h⟩ := do_unit_eq_ok.mp h
    obtain ⟨run, -, h⟩ := do_eq_ok.mp h
    cases h
    refine ⟨loadOwnedWorkflow_live hload, fun e id => ne_runExists ?_⟩
    cases e <;> decide +kernel
  | run id | runTasks id =>
    obtain ⟨-, h⟩ := do_unit_eq_ok.mp h
    obtain ⟨found, -, h⟩ := do_eq_ok.mp h
    cases h
    trivial
  | runCancellation id =>
    obtain ⟨-, h⟩ := do_unit_eq_ok.mp h
    obtain ⟨found, -, h⟩ := do_eq_ok.mp h
    obtain ⟨-, h⟩ := do_unit_eq_ok.mp h
    cases h
    trivial
  | runRetry id body =>
    obtain ⟨-, h⟩ := do_unit_eq_ok.mp h
    obtain ⟨source, hload, h⟩ := do_eq_ok.mp h
    obtain ⟨-, h⟩ := do_unit_eq_ok.mp h
    obtain ⟨found, -, h⟩ := do_eq_ok.mp h
    obtain ⟨definition, -, h⟩ := do_eq_ok.mp h
    obtain ⟨run, -, h⟩ := do_eq_ok.mp h
    cases h
    have hcode : ascii "not_ready" ≠ ascii "run_exists" := by decide +kernel
    exact ⟨loadRun_live hload, fun e id => ne_runExists hcode⟩
  | runEvents id lastEventID =>
    obtain ⟨-, h⟩ := do_unit_eq_ok.mp h
    obtain ⟨snapshot, -, h⟩ := do_eq_ok.mp h
    obtain ⟨sequence, -, h⟩ := do_eq_ok.mp h
    obtain ⟨-, h⟩ := do_unit_eq_ok.mp h
    cases h
    trivial
  | projects | project | projectMembers | projectMember | projectAuditEvents | workflows =>
    cases hroute

theorem cancelRun_reply (id : RunID) : ({ server with store := s }.cancelRun id).1 =
    ({ server with store := t }.cancelRun id).1 := by
  unfold ApiServer.cancelRun
  rcases server.manager.cancel id with ⟨canceled, manager⟩
  cases canceled with
  | true => rfl
  | false =>
    simp only
    rcases manager.start id with e | manager'
    · cases e <;> rfl
    · rfl

/-- Two stores that differ in foreign resources only are answered alike exactly if the
resource the request looks for is foreign in both or in neither, and the ID of the run
it goes on to create is taken in both or in neither. -/
theorem answered_alike_iff (h : Alike principal.userID s t) (hs : s.Keyed)
    (hroute : route.namesResource = true) :
    ({ server with store := s }.handle env principal method route).1 =
        ({ server with store := t }.handle env principal method route).1 ↔
      (route.LooksUp env method →
        (route.NamesForeign s principal.userID ↔ route.NamesForeign t principal.userID)) ∧
      ∀ run refused,
        { server with store := s }.plan env principal method route = .ok (.startRun run refused) →
        run.snapshot.validate = .ok () →
        (s.runs.contains run.id = true ↔ t.runs.contains run.id = true) := by
  unfold ApiServer.handle
  rcases plan_told server env h hs method hroute with
    ⟨hsame, hplan⟩ | ⟨hsame, e, e', hplan, hplan', hne⟩
  · rw [← hplan]
    cases haction : { server with store := s }.plan env principal method route with
    | error e => exact iff_of_true rfl ⟨hsame, nofun⟩
    | ok action =>
      have hplain := plan_plain hroute haction
      cases action with
      | mutate => exact hplain.elim
      | reply | streamEvents => exact iff_of_true rfl ⟨hsame, nofun⟩
      | cancelRun id => exact iff_of_true (cancelRun_reply id) ⟨hsame, nofun⟩
      | startRun run refused =>
        have hnot : ∀ body, route ≠ .projects body := by
          rintro body rfl
          cases hroute
        obtain ⟨p, -, ⟨user, m, -, -, hmember, -⟩, howner, -⟩ := plan_settled hs hnot haction
        refine (startRun_told hplain.1 hplain.2 (h.own howner hmember).1).trans ?_
        constructor
        · rintro htaken
          refine ⟨hsame, ?_⟩
          rintro _ _ ⟨⟩
          exact htaken
        · exact fun hright => hright.2 run refused rfl
  · rw [hplan, hplan']
    exact iff_of_false (fun heq => hne (Reply.failed.inj heq)) fun hright => hsame hright.1

end Requests

/-! ## A workflow of another project -/

def carol : Principal := ⟨ascii "carol", ascii "Carol"⟩

/-- Two users, each the admin of a project of their own. -/
def twoProjects : ApiServer :=
  (projectServer.handle atNoon carol .post (.projects (.ok ⟨ascii "anvil", ascii "Anvil"⟩))).2

def forgedWorkflow : WorkflowPayload where
  id := ascii "w"
  projectID := ascii "forge"
  tasks := [⟨ascii "a", ascii "A", [], ascii "h", [], 1, some 0, some 0⟩]

/-- The same, and `ada` has a workflow. -/
def withWorkflow : ApiServer :=
  (twoProjects.handle atNoon ada .post (.workflows (.ok forgedWorkflow))).2

theorem withWorkflow_alike : Alike carol.userID withWorkflow.store twoProjects.store := by
  have hworkflows : withWorkflow.store.workflows = twoProjects.store.workflows.insert (ascii "w")
      ⟨ascii "w", [⟨ascii "a", ascii "A", .nil, ascii "h", [], ⟨1, 0, 0⟩⟩]⟩ := by decide +kernel
  have howners : withWorkflow.store.ownerships = twoProjects.store.ownerships.insert (ascii "w")
      ⟨ascii "w", ascii "forge", ascii "ada", 1⟩ := by decide +kernel
  refine ⟨by decide +kernel, by decide +kernel, by decide +kernel, by decide +kernel,
    by decide +kernel, fun id => ?_, fun id => .inl ?_⟩
  · rw [hworkflows, howners]
    by_cases hid : id = ascii "w"
    · subst hid
      refine .inr ⟨.inr ⟨⟨ascii "w", ascii "forge", ascii "ada", 1⟩, ?_, ?_⟩, .inl ?_⟩
      · rw [howners, KeyMap.get?_insert_self]
      · decide +kernel
      · decide +kernel
    · exact .inl ⟨KeyMap.get?_insert_ne _ _ hid, KeyMap.get?_insert_ne _ _ hid⟩
  · rw [show withWorkflow.store.runs = twoProjects.store.runs by decide +kernel]

theorem withWorkflow_keyed : withWorkflow.store.Keyed := by
  have hfiled : withWorkflow.Filed :=
    handle_filed (handle_filed projectServer_filed _ _ _ _) _ _ _ _
  exact hfiled.store.sound_keyed.2

/-- Nothing tells the stores apart for a request that names another workflow. -/
theorem sample_answered_alike :
    ({ twoProjects with store := withWorkflow.store }.handle atNoon carol .get
        (.workflow (ascii "v"))).1 =
      ({ twoProjects with store := twoProjects.store }.handle atNoon carol .get
        (.workflow (ascii "v"))).1 := by
  refine (answered_alike_iff withWorkflow_alike withWorkflow_keyed rfl).mpr ⟨fun _ => ?_, ?_⟩
  · -- there is no such workflow in either
    refine iff_of_false (fun hforeign => ?_) fun hforeign => ?_
    · exact absurd hforeign.1 (by decide +kernel)
    · exact absurd hforeign.1 (by decide +kernel)
  · intro run refused hplan
    have herror : { twoProjects with store := withWorkflow.store }.plan atNoon carol .get
        (.workflow (ascii "v")) = .error workflowNotFound := by rfl
    rw [herror] at hplan
    cases hplan

/-- A member of no project that owns it tells a workflow from a missing one by the code
of the answer, and so does a user who is not provisioned. -/
theorem foreign_workflow_told_from_missing :
    Alike carol.userID withWorkflow.store twoProjects.store ∧
    (withWorkflow.handle atNoon carol .get (.workflow (ascii "w"))).1 =
      .failed (apiError 404 "project_not_found" "project was not found" "project_id") ∧
    (twoProjects.handle atNoon carol .get (.workflow (ascii "w"))).1 =
      .failed (apiError 404 "workflow_not_found" "workflow was not found" "id") ∧
    (withWorkflow.handle atNoon ⟨ascii "eve", ascii "Eve"⟩ .get (.workflow (ascii "w"))).1 =
      .failed (apiError 403 "forbidden" "authenticated user is not provisioned" "") ∧
    (twoProjects.handle atNoon ⟨ascii "eve", ascii "Eve"⟩ .get (.workflow (ascii "w"))).1 =
      .failed (apiError 404 "workflow_not_found" "workflow was not found" "id") :=
  ⟨withWorkflow_alike, by decide +kernel⟩

end ForgeFlow.Api
