import ForgeFlow.Persistence.Keys
import ForgeFlow.Persistence.References
import ForgeFlow.Api.Server

/-!
# A request stays within one project

A project is the tenant boundary. A request that is answered with content or that
changes the store was authorized in the project that owns what it is about, by
persisted ownership, and it leaves the records of every other project alone.
-/

namespace ForgeFlow.Api

open ForgeFlow.Base ForgeFlow.Workflow ForgeFlow.Execution ForgeFlow.Security
  ForgeFlow.Persistence

variable {store s' : FileStore} {content : Content} {ctx : ContextState} {id : RunID}
  {definition : WorkflowDefinition} {snapshot : WorkflowRunSnapshot} {body : Body RunID}
  {e : Option GoString} {m : Mutation}

/-! ## Ownership and authorization -/

/-- The project a workflow belongs to. -/
def workflowProject (store : FileStore) (id : WorkflowID) : Option ProjectID :=
  (store.ownerships.get? id).map WorkflowOwnership.projectID

/-- A run belongs to the project of its workflow. -/
def runProject (store : FileStore) (id : RunID) : Option ProjectID :=
  (store.runs.get? id).bind fun run => workflowProject store run.workflowID

/-- The project a request is about; a project that is still to be created is none. -/
def Route.project? (store : FileStore) : Route → Option ProjectID
  | .projects _ => none
  | .project p _ | .projectMembers p | .projectMember p _ _ | .projectAuditEvents p => some p
  | .workflows body => body.toOption.map WorkflowPayload.projectID
  | .workflow id | .workflowRuns id _ => workflowProject store id
  | .run id | .runTasks id | .runCancellation id | .runRetry id _ | .runEvents id _ =>
    runProject store id

/-- The permission a route requires, by the table of roles. -/
def Route.permission (method : Method) : Route → Permission
  | .projects _ => .projectRead
  | .project _ _ => if method = .patch then .projectManage else .projectRead
  | .projectMembers _ | .projectMember _ _ _ => .projectManage
  | .projectAuditEvents _ => .auditRead
  | .workflows _ => .workflowWrite
  | .workflow _ => .projectRead
  | .workflowRuns _ _ => .runStart
  | .run _ | .runEvents _ _ => .runRead
  | .runTasks _ => .taskRead
  | .runCancellation _ | .runRetry _ _ => .runOperate

/-- The user a request names, who need not be known yet. -/
def Route.namedUser : Route → Option UserID
  | .projectMember _ userID _ => some userID
  | _ => none

/-- A persisted user, not disabled, whose membership allows the permission. -/
def Authorized (store : FileStore) (principal : Principal) (p : ProjectID)
    (permission : Permission) : Prop :=
  ∃ user m, store.users.get? principal.userID = some user ∧ user.disabled = false ∧
    store.membership? p principal.userID = some m ∧ m.role.allows permission = true

/-- No records but those of one project differ, and none that belongs to a workflow
or run is replaced. A named user may be taken in; no user is changed. -/
structure Confined (p : ProjectID) (named : Option UserID) (s s' : FileStore) : Prop where
  users : ∀ u, s'.users.get? u = s.users.get? u ∨ named = some u ∧ s.users.get? u = none
  projects : ∀ q, q ≠ p → s'.projects.get? q = s.projects.get? q
  members : ∀ q u, q ≠ p → s'.membership? q u = s.membership? q u
  auditEvents : ∀ q, q ≠ p → s'.auditEvents.get? q = s.auditEvents.get? q
  workflows : ∀ id, s'.workflows.get? id = s.workflows.get? id ∨
    s.workflows.get? id = none ∧ workflowProject s' id = some p
  ownerships : ∀ id, s'.ownerships.get? id = s.ownerships.get? id ∨
    s.ownerships.get? id = none ∧ workflowProject s' id = some p
  runs : ∀ id, s'.runs.get? id = s.runs.get? id ∨
    s.runs.get? id = none ∧ runProject s' id = some p

theorem Confined.refl (p : ProjectID) (named : Option UserID) (s : FileStore) :
    Confined p named s s :=
  ⟨fun _ => .inl rfl, fun _ _ => rfl, fun _ _ _ => rfl, fun _ _ => rfl, fun _ => .inl rfl,
    fun _ => .inl rfl, fun _ => .inl rfl⟩

/-- What a response shows is what is stored of the project: each content is that of a
record of the project, and events stand in the streams that brokers keep of a run of it. -/
def Content.Of (store : FileStore) (brokers : List EventBroker) (p : ProjectID) : Content → Prop
  | .project shown => store.projects.get? p = some shown
  | .membership shown => store.membership? p shown.userID = some shown
  | .memberships shown => ∀ m ∈ shown, ∃ u, store.membership? p u = some m
  | .auditEvents shown => ∀ e ∈ shown, e ∈ store.auditOf p
  | .workflow shown => ∃ d o, store.workflows.get? shown.id = some d ∧
      store.ownerships.get? shown.id = some o ∧ o.projectID = p ∧ shown = workflowDTO d o
  | .run shown => ∃ run, store.runs.get? shown.id = some run ∧
      workflowProject store run.workflowID = some p ∧ shown = runDTO run
  | .tasks id shown => ∃ run, store.runs.get? id = some run ∧
      workflowProject store run.workflowID = some p ∧ shown = taskRunsDTO run
  | .cancellation id => runProject store id = some p
  | .events id shown => runProject store id = some p ∧ ∀ e ∈ shown, e.runID = id ∧
      ∃ b ∈ brokers, ∃ stream, b.streams.get? id = some stream ∧ e ∈ stream.events

/-- Only events are looked up in brokers. -/
theorem Content.Of.mono {p : ProjectID}
    (h : content.Of store [] p) (brokers : List EventBroker) : content.Of store brokers p := by
  cases content with
  | events id shown =>
    refine ⟨h.1, fun e he => ?_⟩
    obtain ⟨-, b, hb, -⟩ := h.2 e he
    cases hb
  | _ => exact h

/-- Copies of a definition are shown alike. -/
theorem workflowDTO_clone (d : WorkflowDefinition) (o : WorkflowOwnership) :
    workflowDTO (cloneDefinition d) o = workflowDTO d o := by
  have hsort : sortTasks (d.tasks.map cloneTaskDefinition) =
      (sortTasks d.tasks).map cloneTaskDefinition :=
    (List.map_insertionSort _ _ cloneTaskDefinition d.tasks fun _ _ _ _ => Iff.rfl).symm
  simp [workflowDTO, cloneDefinition, hsort, taskResponse, cloneTaskDefinition, Function.comp_def]

/-! ## Reads and checks -/

@[simp] theorem reading_eq_ok {α : Type} {value a : α} :
    reading ctx value = .ok a ↔ contextError ctx = .ok () ∧ value = a := by
  unfold reading
  rw [map_eq_ok]
  constructor
  · rintro ⟨_, hctx, rfl⟩
    exact ⟨mapError_ok_iff.mp hctx, rfl⟩
  · rintro ⟨hctx, rfl⟩
    exact ⟨(), mapError_ok_iff.mpr hctx, rfl⟩

theorem authorizeProject_ok {principal : Principal} {p : ProjectID} {permission : Permission}
    (h : authorizeProject store ctx principal p permission = .ok ()) :
    Authorized store principal p permission := by
  obtain ⟨user?, hread, h⟩ := do_eq_ok.mp h
  obtain ⟨user, huser, h⟩ := do_eq_ok.mp h
  obtain ⟨hdisabled, h⟩ := do_unit_eq_ok.mp h
  obtain ⟨member?, hread', h⟩ := do_eq_ok.mp h
  obtain ⟨m, hm, hrole⟩ := do_eq_ok.mp h
  obtain ⟨-, rfl⟩ := reading_eq_ok.mp hread
  obtain ⟨-, rfl⟩ := reading_eq_ok.mp hread'
  simp only [firstError_cons, firstError_nil, and_true, Bool.not_eq_false'] at hdisabled hrole
  exact ⟨user, m, required_ok_iff.mp huser, hdisabled, required_ok_iff.mp hm, hrole⟩

theorem loadWorkflow_ok {id : WorkflowID} (hkeyed : store.Keyed)
    (h : loadWorkflow store ctx id = .ok (some definition)) :
    ∃ d, store.workflows.get? id = some d ∧ definition = cloneDefinition d ∧ d.id = id := by
  obtain ⟨-, h⟩ := reading_eq_ok.mp h
  obtain ⟨d, hd, rfl⟩ := Option.map_eq_some_iff.mp h
  exact ⟨d, hd, rfl, hkeyed.workflows id d hd⟩

theorem loadOwnedWorkflow_ok {principal : Principal} {id : WorkflowID} {permission : Permission}
    {ownership : WorkflowOwnership} (hkeyed : store.Keyed)
    (h : loadOwnedWorkflow store ctx principal id permission = .ok (definition, ownership)) :
    (∃ d, store.workflows.get? id = some d ∧ definition = cloneDefinition d ∧ d.id = id) ∧
      store.ownerships.get? id = some ownership ∧
      Authorized store principal ownership.projectID permission := by
  obtain ⟨-, h⟩ := do_unit_eq_ok.mp h
  obtain ⟨found, hload, h⟩ := do_eq_ok.mp h
  obtain ⟨d, hd, h⟩ := do_eq_ok.mp h
  obtain ⟨owned, hread, h⟩ := do_eq_ok.mp h
  obtain ⟨o, ho, h⟩ := do_eq_ok.mp h
  obtain ⟨hauth, h⟩ := do_unit_eq_ok.mp h
  cases h
  obtain ⟨-, rfl⟩ := reading_eq_ok.mp hread
  rw [required_ok_iff.mp hd] at hload
  exact ⟨loadWorkflow_ok hkeyed hload, required_ok_iff.mp ho, authorizeProject_ok hauth⟩

/-- What a lookup of a run went through before it gave the run. -/
theorem loadRun_found {principal : Principal} {permission : Permission}
    (h : loadRun store ctx principal id permission = .ok snapshot) :
    store.runs.get? id = some snapshot ∧
      ∃ o, store.ownerships.get? snapshot.workflowID = some o ∧
        Authorized store principal o.projectID permission := by
  obtain ⟨-, h⟩ := do_unit_eq_ok.mp h
  obtain ⟨found, hread, h⟩ := do_eq_ok.mp h
  obtain ⟨s, hs, h⟩ := do_eq_ok.mp h
  obtain ⟨owned, hread', h⟩ := do_eq_ok.mp h
  obtain ⟨o, ho, h⟩ := do_eq_ok.mp h
  obtain ⟨hauth, h⟩ := do_unit_eq_ok.mp h
  cases h
  obtain ⟨-, rfl⟩ := reading_eq_ok.mp hread
  obtain ⟨-, rfl⟩ := reading_eq_ok.mp hread'
  exact ⟨required_ok_iff.mp hs, o, required_ok_iff.mp ho, authorizeProject_ok hauth⟩

theorem loadRun_ok {principal : Principal} {permission : Permission} (hkeyed : store.Keyed)
    (h : loadRun store ctx principal id permission = .ok snapshot) :
    ∃ p, snapshot.id = id ∧ runProject store id = some p ∧
      workflowProject store snapshot.workflowID = some p ∧
      Authorized store principal p permission := by
  obtain ⟨hstored, o, ho, hauth⟩ := loadRun_found h
  have howner : workflowProject store snapshot.workflowID = some o.projectID := by
    rw [workflowProject, ho]
    rfl
  refine ⟨o.projectID, hkeyed.runs id snapshot hstored, ?_, howner, hauth⟩
  rw [runProject, hstored]
  exact howner

theorem newRun_ok {env : Surroundings}
    {run : WorkflowRun} (h : newRun env definition body = .ok run) :
    newWorkflowRun run.id definition env.now = .ok run ∧
      run.snapshot.workflowID = definition.id := by
  obtain ⟨asked, -, h⟩ := do_eq_ok.mp h
  obtain ⟨runID, -, h⟩ := do_eq_ok.mp h
  obtain ⟨-, h⟩ := do_unit_eq_ok.mp h
  have hnew := mapError_ok_iff.mp h
  obtain ⟨-, -, rfl⟩ := newWorkflowRun_ok hnew
  exact ⟨hnew, rfl⟩

/-! ## What a mutation may touch -/

/-- A security record that is about one project. -/
structure AboutProject (p : ProjectID) (r : JournalRecord) : Prop where
  project : ∀ project, r.project = some project → project.id = p
  member : ∀ m, r.membership = some m → m.projectID = p
  event : ∀ e, r.auditEvent = some e → e.projectID = p
  owner : ∀ o, r.ownership = some o → o.projectID = p
  workflow : ∀ d, r.workflow = some d → ∃ o, r.ownership = some o ∧ o.workflowID = d.id

/-- The state after a security record, table by table. -/
theorem securityCommit_tables (s : FileStore) (r : JournalRecord) :
    (s.securityCommit r).next = s ∨
      (∀ u, (s.securityCommit r).next.users.get? u = s.users.get? u ∨
        s.users.get? u = none ∧ ∃ v, r.user = some v ∧ v.id = u) ∧
      (s.securityCommit r).next.projects = (s.applyParts r).projects ∧
      (∀ p u, (s.securityCommit r).next.membership? p u = (s.applyParts r).membership? p u) ∧
      (s.securityCommit r).next.auditEvents = (s.applyParts r).auditEvents ∧
      (s.securityCommit r).next.workflows = (s.applyParts r).workflows ∧
      (s.securityCommit r).next.ownerships = (s.applyParts r).ownerships ∧
      (s.securityCommit r).next.runs = s.runs := by
  unfold FileStore.securityCommit
  cases h : s.applySecurityRecord r with
  | error e => exact .inl rfl
  | ok s' =>
    obtain ⟨hprojects, hmembers⟩ := FileStore.applySecurityRecord_frame h
    obtain ⟨s₁, hs₁, rfl⟩ := FileStore.applySecurityRecord_ok h
    refine .inr ⟨fun u => ?_, hprojects, hmembers, ?_⟩
    · rw [FileStore.applyParts_users]
      rcases hs₁ with rfl | ⟨v, hv, hnone, rfl⟩
      · exact .inl rfl
      · rw [KeyMap.get?_insert]
        split
        · rename_i hu
          exact .inr ⟨hu ▸ hnone, v, hv, hu.symm⟩
        · exact .inl rfl
    · rw [FileStore.applyParts_auditEvents, FileStore.applyParts_workflows,
        FileStore.applyParts_ownerships, FileStore.applyParts_runs,
        FileStore.applyParts_auditEvents, FileStore.applyParts_workflows,
        FileStore.applyParts_ownerships]
      rcases hs₁ with rfl | ⟨v, -, -, rfl⟩ <;> exact ⟨rfl, rfl, rfl, rfl⟩

theorem confined_securityCommit {s : FileStore} {r : JournalRecord} {p : ProjectID}
    {named : Option UserID} (h : AboutProject p r)
    (huser : ∀ u, r.user = some u → named = some u.id)
    (hworkflow : ∀ d, r.workflow = some d → s.workflows.get? d.id = none)
    (howner : ∀ o, r.ownership = some o → s.ownerships.get? o.workflowID = none) :
    Confined p named s (s.securityCommit r).next := by
  rcases securityCommit_tables s r with hsame |
    ⟨husers, hprojects, hmembers, haudit, hworkflows, howners, hruns⟩
  · rw [hsame]
    exact .refl p named s
  -- a workflow that is new belongs to the project
  have hproject : ∀ o, r.ownership = some o →
      workflowProject (s.securityCommit r).next o.workflowID = some p := by
    intro o ho
    rw [workflowProject, howners, FileStore.applyParts_ownerships, ho]
    simp [h.owner o ho]
  refine ⟨fun u => ?_, fun q hq => ?_, fun q u hq => ?_, fun q hq => ?_, fun id => ?_,
    fun id => ?_, fun id => .inl (by rw [hruns])⟩
  · rcases husers u with hu | ⟨hnone, v, hv, rfl⟩
    · exact .inl hu
    · exact .inr ⟨huser v hv, hnone⟩
  · rw [hprojects, FileStore.applyParts_projects]
    cases hr : r.project with
    | none => rfl
    | some project => exact KeyMap.get?_insert_ne _ _ (h.project project hr ▸ hq)
  · rw [hmembers, FileStore.applyParts_membership?]
    cases hr : r.membership with
    | none => rfl
    | some m =>
      simp only [FileStore.membership?_putMember]
      exact if_neg fun hm => hq (hm.1.trans (h.member m hr))
  · rw [haudit, FileStore.applyParts_auditEvents]
    cases hr : r.auditEvent with
    | none => rfl
    | some e => exact KeyMap.get?_insert_ne _ _ (h.event e hr ▸ hq)
  · rw [hworkflows, FileStore.applyParts_workflows]
    cases hr : r.workflow with
    | none => exact .inl rfl
    | some d =>
      by_cases hid : id = d.id
      · obtain ⟨o, ho, hod⟩ := h.workflow d hr
        subst hid
        exact .inr ⟨hworkflow d hr, hod ▸ hproject o ho⟩
      · exact .inl (KeyMap.get?_insert_ne _ _ hid)
  · rw [howners, FileStore.applyParts_ownerships]
    cases hr : r.ownership with
    | none => exact .inl rfl
    | some o =>
      by_cases hid : id = o.workflowID
      · subst hid
        exact .inr ⟨howner o hr, hproject o hr⟩
      · exact .inl (KeyMap.get?_insert_ne _ _ hid)

/-- A mutation that is about the project, in the state it is made in. -/
def WithinProject (s : FileStore) (p : ProjectID) (named : Option UserID) : Mutation → Prop
  | .createRun _ _ snapshot => workflowProject s snapshot.workflowID = some p
  | .saveProject _ project _ => project.id = p
  | .putMembership _ user m _ => m.projectID = p ∧ named = some user.id
  | .saveWorkflowForProject _ d o => o.projectID = p ∧ s.workflows.get? d.id = none
  | _ => False

theorem confined_createRun {s : FileStore} {entry late : ContextState} {c : Commit} {p : ProjectID}
    {named : Option UserID} (hw : workflowProject s snapshot.workflowID = some p)
    (h : s.createRun entry late snapshot = .ok (some c)) :
    Confined p named s c.next ∧
      c.next.runs.get? snapshot.id = some { snapshot with version := 1 } ∧
      workflowProject c.next snapshot.workflowID = some p := by
  obtain ⟨-, h⟩ := bind_unit_ok_iff.mp h
  obtain ⟨-, h⟩ := bind_unit_ok_iff.mp h
  obtain ⟨hfirst, h⟩ := bind_unit_ok_iff.mp h
  obtain ⟨-, h⟩ := bind_unit_ok_iff.mp h
  obtain ⟨-, h⟩ := bind_unit_ok_iff.mp h
  cases h
  have hnone : s.runs.get? snapshot.id = none := by
    simp only [firstError_cons, KeyMap.contains, Option.isSome_eq_false_iff,
      Option.isNone_iff_eq_none] at hfirst
    exact hfirst.1
  have hget := KeyMap.get?_insert_self s.runs snapshot.id { snapshot with version := 1 }
  refine ⟨{ Confined.refl p named s with runs := fun id => ?_ }, hget, hw⟩
  by_cases hid : id = snapshot.id
  · subst hid
    refine .inr ⟨hnone, ?_⟩
    rw [runProject, hget]
    exact hw
  · exact .inl (KeyMap.get?_insert_ne _ _ hid)

theorem confined_saveWorkflowForProject {s : FileStore}
    {d : WorkflowDefinition} {o : WorkflowOwnership}
    {named : Option UserID} (hnew : s.workflows.get? d.id = none)
    (h : commit s (.saveWorkflowForProject ctx d o) e = .ok s') :
    Confined o.projectID named s s' ∧ (s.ownerships.get? d.id = none →
      s'.workflows.get? d.id = some (cloneDefinition d) ∧ s'.ownerships.get? d.id = some o) := by
  have hprepare : ∀ found, s.saveWorkflowForProject ctx d o = .ok found →
      o.workflowID = d.id ∧
        (found = none ∧ s.ownerships.get? d.id = some o ∨
          s.ownerships.get? d.id = none ∧ found = some (s.securityCommit {
            operation := .saveOwnedWorkflow, workflow := some (cloneDefinition d),
            ownership := some o })) := by
    intro found h
    obtain ⟨-, h⟩ := bind_unit_ok_iff.mp h
    obtain ⟨-, h⟩ := bind_unit_ok_iff.mp h
    obtain ⟨-, h⟩ := bind_unit_ok_iff.mp h
    obtain ⟨hfirst, h⟩ := bind_unit_ok_iff.mp h
    simp only [firstError_cons, decide_eq_false_iff_not, not_not, ne_eq] at hfirst
    refine ⟨hfirst.1, ?_⟩
    split at h
    · rename_i existing hexisting
      split at h
      · rename_i hsame
        cases h
        exact .inl ⟨rfl, hsame ▸ hexisting⟩
      · cases h
    · rename_i hnone
      cases h
      exact .inr ⟨hnone, rfl⟩
  rcases commit_ok h with ⟨hnone, rfl⟩ | ⟨c, hc, rfl⟩
  · obtain ⟨-, ⟨-, howner⟩ | ⟨-, hc⟩⟩ := hprepare none hnone
    · refine ⟨.refl _ _ _, fun hnone => ?_⟩
      exact absurd (hnone.symm.trans howner) (Option.some_ne_none o).symm
    · cases hc
  · obtain ⟨hid, ⟨hc, -⟩ | ⟨howner, hc⟩⟩ := hprepare (some c) hc
    · cases hc
    cases hc
    refine ⟨confined_securityCommit ⟨by simp, by simp, by simp, ?_, ?_⟩ (by simp) ?_ ?_,
      fun _ => ?_⟩
    · rintro _ ⟨⟩
      rfl
    · rintro _ ⟨⟩
      exact ⟨o, rfl, hid⟩
    · rintro _ ⟨⟩
      exact hnew
    · rintro _ ⟨⟩
      rw [hid]
      exact howner
    · -- a record without user and audit event is never refused
      simp [FileStore.securityCommit, FileStore.applySecurityRecord, FileStore.checkAuditEvent,
        FileStore.applyUser, Except.bind, FileStore.applyParts_eq, hid]

theorem commit_confined {s : FileStore} {p : ProjectID}
    {named : Option UserID} (ht : Tended s) (hw : WithinProject s p named m)
    (h : commit s m e = .ok s') : Confined p named s s' := by
  cases m with
  | saveWorkflow | saveRun | createProject => exact hw.elim
  | saveWorkflowForProject ctx d o =>
    obtain ⟨rfl, hnew⟩ := hw
    exact (confined_saveWorkflowForProject hnew h).1
  | createRun entry late snapshot =>
    rcases commit_ok h with ⟨-, rfl⟩ | ⟨c, hc, rfl⟩
    · exact .refl _ _ _
    · exact (confined_createRun hw hc).1
  | saveProject ctx project event =>
    rcases commit_ok h with ⟨-, rfl⟩ | ⟨c, hc, rfl⟩
    · exact .refl _ _ _
    obtain ⟨-, -, hcommits⟩ := ht.commits hc
    generalize c.next = next at hcommits ⊢
    cases hcommits with
    | saveProject record logged admissible =>
      subst record
      refine confined_securityCommit ⟨?_, by simp, ?_, by simp, by simp⟩ (by simp) (by simp)
        (by simp)
      · rintro _ ⟨⟩
        exact hw
      · rintro _ ⟨⟩
        exact logged.trans hw
  | putMembership ctx user membership event =>
    obtain ⟨hproject, hnamed⟩ := hw
    rcases commit_ok h with ⟨-, rfl⟩ | ⟨c, hc, rfl⟩
    · exact .refl _ _ _
    obtain ⟨-, -, hcommits⟩ := ht.commits hc
    generalize c.next = next at hcommits ⊢
    cases hcommits with
    | putMembership replaces record same logged admissible =>
      subst record
      refine confined_securityCommit ⟨by simp, ?_, ?_, by simp, by simp⟩ ?_ (by simp) (by simp)
      · rintro _ ⟨⟩
        exact (replaceMembership_same replaces).1.trans hproject
      · rintro _ ⟨⟩
        exact logged.trans hproject
      · rintro _ ⟨⟩
        rw [same]
        exact hnamed

/-- The content is that of the record a mutation brings. -/
def Shows (s : FileStore) : Mutation → Content → Prop
  | .saveProject _ project _, .project shown => shown = project
  | .putMembership _ _ m _, .membership shown => shown = m ∧
      ∀ existing, s.membership? m.projectID m.userID = some existing →
        m.createdAt = existing.createdAt
  | .saveWorkflowForProject _ d o, .workflow shown => shown = workflowDTO d o
  | _, _ => False

theorem replaceMembership_eq {s : FileStore} {m m' : Membership}
    (h : s.replaceMembership m = .ok m')
    (hcreated : ∀ existing, s.membership? m.projectID m.userID = some existing →
      m.createdAt = existing.createdAt) : m' = m := by
  unfold FileStore.replaceMembership at h
  split at h
  · cases h
    rfl
  · rename_i existing hexisting
    split at h
    · cases h
    · cases h
      rw [← hcreated existing hexisting]

/-- A record that is brought is stored as it is shown. -/
theorem commit_shown {s : FileStore} {p : ProjectID}
    {named : Option UserID} (ht : Tended s) (hw : WithinProject s p named m)
    (hshows : Shows s m content) (h : commit s m e = .ok s') : content.Of s' [] p := by
  have happlied : ∀ c, s.prepare m = .ok (some c) → c.record.operation.security = true →
      s.applySecurityRecord c.record = .ok c.next := fun c hc hop =>
    FileStore.applyRecord_security hop (prepare_replayed ht.sound hc).apply
  cases m with
  | saveWorkflow | saveRun | createProject => exact hw.elim
  | createRun => cases content <;> exact hshows.elim
  | saveProject ctx project event =>
    cases content with
    | project shown =>
      have hshown : shown = project := hshows
      have hid : project.id = p := hw
      rcases commit_ok h with ⟨hnone, -⟩ | ⟨c, hc, rfl⟩
      · rcases prepare_none hnone with ⟨_, _, _, heq⟩ | ⟨_, _, _, heq⟩ <;> cases heq
      have hstored := happlied c hc
      simp only [FileStore.prepare, FileStore.saveProject, bind_unit_ok_iff] at hc
      split at hc
      · simp at hc
      · simp only [bind_unit_ok_iff, Except.ok.injEq, Option.some.injEq] at hc
        obtain ⟨-, -, -, -, -, rfl⟩ := hc
        rw [hshown, ← hid]
        exact projects_applied (hstored rfl) rfl
    | _ => exact hshows.elim
  | putMembership ctx user membership event =>
    cases content with
    | membership shown =>
      obtain ⟨rfl, hcreated⟩ := hshows
      obtain ⟨rfl, -⟩ := hw
      rcases commit_ok h with ⟨hnone, -⟩ | ⟨c, hc, rfl⟩
      · rcases prepare_none hnone with ⟨_, _, _, heq⟩ | ⟨_, _, _, heq⟩ <;> cases heq
      have hstored := happlied c hc
      simp only [FileStore.prepare, FileStore.putMembership, bind_eq_ok, Except.ok.injEq,
        Option.some.injEq] at hc
      obtain ⟨-, -, -, -, -, -, -, -, -, -, known, -, replaced, hreplaced, -, -, rfl⟩ := hc
      rw [replaceMembership_eq hreplaced hcreated] at hstored ⊢
      refine (membership_applied (hstored rfl) _ _).trans ?_
      simp [FileStore.securityCommit]
    | _ => exact hshows.elim
  | saveWorkflowForProject ctx d o =>
    cases content with
    | workflow shown =>
      have hshown : shown = workflowDTO d o := hshows
      obtain ⟨rfl, hnew⟩ := hw
      -- an ownership that is stored would refer to a workflow that is stored
      have hnone : s.ownerships.get? d.id = none := by
        cases hget : s.ownerships.get? d.id with
        | none => rfl
        | some o' =>
          have hcontains := (ht.references.ownerships _ _ hget).2.1
          rw [KeyMap.contains, hnew] at hcontains
          cases hcontains
      obtain ⟨hworkflow, howner⟩ :=
        (@confined_saveWorkflowForProject s' ctx e s d o none hnew h).2 hnone
      subst hshown
      exact ⟨cloneDefinition d, o, hworkflow, howner, rfl, (workflowDTO_clone d o).symm⟩
    | _ => exact hshows.elim

/-! ## What the handlers come to -/

/-- An action that keeps to the project. -/
def Action.Within (s : FileStore) (p : ProjectID) (named : Option UserID) : Action → Prop
  | .reply _ content => content.Of s [] p
  | .mutate m _ _ content => WithinProject s p named m ∧ Shows s m content
  | .startRun run _ => workflowProject s run.snapshot.workflowID = some p ∧ ∃ d now,
      s.workflows.get? d.id = some d ∧ newWorkflowRun run.id (cloneDefinition d) now = .ok run
  | .cancelRun id => runProject s id = some p
  | .streamEvents snapshot _ => runProject s snapshot.id = some p

/-- What is settled once a handler has come to an action. -/
def Settled (s : FileStore) (principal : Principal) (method : Method) (route : Route)
    (action : Action) : Prop :=
  ∃ p, route.project? s = some p ∧ Authorized s principal p (route.permission method) ∧
    action.Within s p route.namedUser

section Handlers

variable {s : FileStore} {registered : HandlerName → Bool} {env : Surroundings}
  {principal : Principal} {method : Method} {action : Action}

theorem loadProject_ok {p : ProjectID} {project : Project}
    (h : loadProject s env p = .ok project) : s.projects.get? p = some project := by
  obtain ⟨found, hread, h⟩ := do_eq_ok.mp h
  obtain ⟨-, rfl⟩ := reading_eq_ok.mp hread
  exact required_ok_iff.mp h

theorem handleProject_settled {p : ProjectID} {newName : Body GoString} (hkeyed : s.Keyed)
    (h : handleProject s env principal method p newName = .ok action) :
    Settled s principal method (.project p newName) action := by
  obtain ⟨-, h⟩ := do_unit_eq_ok.mp h
  split at h
  · obtain ⟨hauth, h⟩ := do_unit_eq_ok.mp h
    obtain ⟨project, hload, h⟩ := do_eq_ok.mp h
    cases h
    exact ⟨p, rfl, authorizeProject_ok hauth, loadProject_ok hload⟩
  · obtain ⟨hauth, h⟩ := do_unit_eq_ok.mp h
    obtain ⟨name, -, h⟩ := do_eq_ok.mp h
    obtain ⟨old, hload, h⟩ := do_eq_ok.mp h
    obtain ⟨randomID, -, h⟩ := do_eq_ok.mp h
    obtain ⟨-, h⟩ := do_unit_eq_ok.mp h
    cases h
    exact ⟨p, rfl, authorizeProject_ok hauth, hkeyed.projects p old (loadProject_ok hload), rfl⟩
  · cases h

theorem handleProjectMembers_settled {p : ProjectID}
    (h : handleProjectMembers s env principal method p = .ok action) :
    Settled s principal method (.projectMembers p) action := by
  obtain ⟨-, h⟩ := do_unit_eq_ok.mp h
  obtain ⟨-, h⟩ := do_unit_eq_ok.mp h
  obtain ⟨hauth, h⟩ := do_unit_eq_ok.mp h
  obtain ⟨memberships, hread, h⟩ := do_eq_ok.mp h
  obtain ⟨-, rfl⟩ := reading_eq_ok.mp hread
  cases h
  refine ⟨p, rfl, authorizeProject_ok hauth, fun m hm => ?_⟩
  rw [List.mem_insertionSort, KeyMap.mem_values_iff] at hm
  exact hm

theorem handleProjectMember_settled {p : ProjectID} {userID : UserID}
    {body : Body MembershipPayload}
    (h : handleProjectMember s env principal method p userID body = .ok action) :
    Settled s principal method (.projectMember p userID body) action := by
  obtain ⟨-, h⟩ := do_unit_eq_ok.mp h
  obtain ⟨-, h⟩ := do_unit_eq_ok.mp h
  obtain ⟨hauth, h⟩ := do_unit_eq_ok.mp h
  obtain ⟨-, h⟩ := do_unit_eq_ok.mp h
  obtain ⟨payload, -, h⟩ := do_eq_ok.mp h
  obtain ⟨-, h⟩ := do_unit_eq_ok.mp h
  obtain ⟨existing, hread, h⟩ := do_eq_ok.mp h
  obtain ⟨-, h⟩ := do_unit_eq_ok.mp h
  obtain ⟨randomID, -, h⟩ := do_eq_ok.mp h
  obtain ⟨-, h⟩ := do_unit_eq_ok.mp h
  cases h
  obtain ⟨-, rfl⟩ := reading_eq_ok.mp hread
  refine ⟨p, rfl, authorizeProject_ok hauth, ⟨rfl, rfl⟩, rfl, fun existing hexisting => ?_⟩
  simp only [MemberRequest.newMembership] at hexisting ⊢
  rw [hexisting]
  rfl

theorem handleProjectAuditEvents_settled {p : ProjectID}
    (h : handleProjectAuditEvents s env principal method p = .ok action) :
    Settled s principal method (.projectAuditEvents p) action := by
  obtain ⟨-, h⟩ := do_unit_eq_ok.mp h
  obtain ⟨-, h⟩ := do_unit_eq_ok.mp h
  obtain ⟨hauth, h⟩ := do_unit_eq_ok.mp h
  obtain ⟨events, hread, h⟩ := do_eq_ok.mp h
  obtain ⟨-, rfl⟩ := reading_eq_ok.mp hread
  cases h
  refine ⟨p, rfl, authorizeProject_ok hauth, fun e he => ?_⟩
  exact List.mem_reverse.mp (List.mem_of_mem_take he)

theorem handleWorkflows_settled {body : Body WorkflowPayload}
    (h : handleWorkflows s registered env principal method body = .ok action) :
    Settled s principal method (.workflows body) action := by
  obtain ⟨-, h⟩ := do_unit_eq_ok.mp h
  obtain ⟨payload, hbody, h⟩ := do_eq_ok.mp h
  obtain ⟨definition, -, h⟩ := do_eq_ok.mp h
  obtain ⟨-, h⟩ := do_unit_eq_ok.mp h
  obtain ⟨-, h⟩ := do_unit_eq_ok.mp h
  obtain ⟨-, h⟩ := do_unit_eq_ok.mp h
  obtain ⟨-, h⟩ := do_unit_eq_ok.mp h
  obtain ⟨hauth, h⟩ := do_unit_eq_ok.mp h
  obtain ⟨existing, hload, h⟩ := do_eq_ok.mp h
  obtain ⟨hnew, h⟩ := do_unit_eq_ok.mp h
  cases h
  subst hbody
  obtain ⟨-, rfl⟩ := reading_eq_ok.mp hload
  have hnone : s.workflows.get? definition.id = none := by simpa using hnew
  exact ⟨payload.projectID, rfl, authorizeProject_ok hauth, ⟨rfl, hnone⟩, rfl⟩

theorem handleWorkflow_settled {id : WorkflowID} (hkeyed : s.Keyed)
    (h : handleWorkflow s env principal method id = .ok action) :
    Settled s principal method (.workflow id) action := by
  obtain ⟨-, h⟩ := do_unit_eq_ok.mp h
  obtain ⟨⟨definition, ownership⟩, hload, h⟩ := do_eq_ok.mp h
  cases h
  obtain ⟨⟨d, hd, rfl, rfl⟩, howner, hauth⟩ := loadOwnedWorkflow_ok hkeyed hload
  exact ⟨ownership.projectID, by rw [Route.project?, workflowProject, howner]; rfl, hauth,
    d, ownership, hd, howner, rfl, workflowDTO_clone d ownership⟩

theorem handleWorkflowRuns_settled {id : WorkflowID} (hkeyed : s.Keyed)
    (h : handleWorkflowRuns s registered env principal method id body = .ok action) :
    Settled s principal method (.workflowRuns id body) action := by
  obtain ⟨-, h⟩ := do_unit_eq_ok.mp h
  obtain ⟨⟨definition, ownership⟩, hload, h⟩ := do_eq_ok.mp h
  obtain ⟨-, h⟩ := do_unit_eq_ok.mp h
  obtain ⟨run, hrun, h⟩ := do_eq_ok.mp h
  cases h
  obtain ⟨⟨d, hd, rfl, rfl⟩, howner, hauth⟩ := loadOwnedWorkflow_ok hkeyed hload
  obtain ⟨hnew, hworkflow⟩ := newRun_ok hrun
  have hproject : workflowProject s d.id = some ownership.projectID := by
    rw [workflowProject, howner]
    rfl
  exact ⟨ownership.projectID, hproject, hauth, hworkflow ▸ hproject, d, env.now, hd, hnew⟩

theorem handleRun_settled (hkeyed : s.Keyed)
    (h : handleRun s env principal method id = .ok action) :
    Settled s principal method (.run id) action := by
  obtain ⟨-, h⟩ := do_unit_eq_ok.mp h
  obtain ⟨snapshot, hload, h⟩ := do_eq_ok.mp h
  cases h
  obtain ⟨p, rfl, hproject, howner, hauth⟩ := loadRun_ok hkeyed hload
  exact ⟨p, hproject, hauth, snapshot, (loadRun_found hload).1, howner, rfl⟩

theorem handleRunTasks_settled (hkeyed : s.Keyed)
    (h : handleRunTasks s env principal method id = .ok action) :
    Settled s principal method (.runTasks id) action := by
  obtain ⟨-, h⟩ := do_unit_eq_ok.mp h
  obtain ⟨snapshot, hload, h⟩ := do_eq_ok.mp h
  cases h
  obtain ⟨p, rfl, hproject, howner, hauth⟩ := loadRun_ok hkeyed hload
  exact ⟨p, hproject, hauth, snapshot, (loadRun_found hload).1, howner, rfl⟩

theorem handleRunCancellation_settled (hkeyed : s.Keyed)
    (h : handleRunCancellation s env principal method id = .ok action) :
    Settled s principal method (.runCancellation id) action := by
  obtain ⟨-, h⟩ := do_unit_eq_ok.mp h
  obtain ⟨snapshot, hload, h⟩ := do_eq_ok.mp h
  obtain ⟨-, h⟩ := do_unit_eq_ok.mp h
  cases h
  obtain ⟨p, rfl, hproject, -, hauth⟩ := loadRun_ok hkeyed hload
  exact ⟨p, hproject, hauth, hproject⟩

theorem handleRunRetry_settled (hkeyed : s.Keyed)
    (h : handleRunRetry s env principal method id body = .ok action) :
    Settled s principal method (.runRetry id body) action := by
  obtain ⟨-, h⟩ := do_unit_eq_ok.mp h
  obtain ⟨source, hload, h⟩ := do_eq_ok.mp h
  obtain ⟨-, h⟩ := do_unit_eq_ok.mp h
  obtain ⟨found, hfound, h⟩ := do_eq_ok.mp h
  obtain ⟨definition, hdefinition, h⟩ := do_eq_ok.mp h
  obtain ⟨run, hrun, h⟩ := do_eq_ok.mp h
  cases h
  rw [required_ok_iff.mp hdefinition] at hfound
  obtain ⟨p, -, hproject, howner, hauth⟩ := loadRun_ok hkeyed hload
  obtain ⟨d, hd, rfl, hid⟩ := loadWorkflow_ok hkeyed hfound
  obtain ⟨hnew, hworkflow⟩ := newRun_ok hrun
  have hsource : run.snapshot.workflowID = source.workflowID := hworkflow.trans hid
  exact ⟨p, hproject, hauth, hsource ▸ howner, d, env.now, hid ▸ hd, hnew⟩

theorem handleRunEvents_settled {lastEventID : Option Nat} (hkeyed : s.Keyed)
    (h : handleRunEvents s env principal method id lastEventID = .ok action) :
    Settled s principal method (.runEvents id lastEventID) action := by
  obtain ⟨-, h⟩ := do_unit_eq_ok.mp h
  obtain ⟨snapshot, hload, h⟩ := do_eq_ok.mp h
  obtain ⟨sequence, -, h⟩ := do_eq_ok.mp h
  obtain ⟨-, h⟩ := do_unit_eq_ok.mp h
  cases h
  obtain ⟨p, rfl, hproject, -, hauth⟩ := loadRun_ok hkeyed hload
  exact ⟨p, hproject, hauth, hproject⟩

end Handlers

/-- Every handler but that of project creation is settled when it comes to an action. -/
theorem plan_settled {server : ApiServer} {env : Surroundings} {principal : Principal}
    {method : Method} {route : Route} {action : Action} (hkeyed : server.store.Keyed)
    (hroute : ∀ body, route ≠ .projects body)
    (h : server.plan env principal method route = .ok action) :
    Settled server.store principal method route action := by
  cases route with
  | projects body => exact absurd rfl (hroute body)
  | project p newName => exact handleProject_settled hkeyed h
  | projectMembers p => exact handleProjectMembers_settled h
  | projectMember p userID body => exact handleProjectMember_settled h
  | projectAuditEvents p => exact handleProjectAuditEvents_settled h
  | workflows body => exact handleWorkflows_settled h
  | workflow id => exact handleWorkflow_settled hkeyed h
  | workflowRuns id body => exact handleWorkflowRuns_settled hkeyed h
  | run id => exact handleRun_settled hkeyed h
  | runTasks id => exact handleRunTasks_settled hkeyed h
  | runCancellation id => exact handleRunCancellation_settled hkeyed h
  | runRetry id body => exact handleRunRetry_settled hkeyed h
  | runEvents id lastEventID => exact handleRunEvents_settled hkeyed h

/-! ## Performing an action -/

section Perform

variable {server server' : ApiServer} {env : Surroundings} {reply : Reply} {p : ProjectID}
  {named : Option UserID}

/-- The store keeps to the project, and so does what is shown of it. -/
def Kept (p : ProjectID) (named : Option UserID) (s : FileStore) (reply : Reply)
    (s' : FileStore) (brokers : List EventBroker) : Prop :=
  Confined p named s s' ∧ ∀ status content, reply = .ok status content → content.Of s' brokers p

theorem cancelRun_store (server : ApiServer) (id : RunID) :
    (server.cancelRun id).2.store = server.store := by
  unfold ApiServer.cancelRun
  split
  · rfl
  · split <;> rfl

theorem cancelRun_content {status : Nat}
    (h : (server.cancelRun id).1 = .ok status content) : content = .cancellation id := by
  unfold ApiServer.cancelRun at h
  split at h
  · cases h
    rfl
  · split at h <;> cases h <;> rfl

theorem startRun_kept {run : WorkflowRun} {refused : ManagerError → APIError}
    (hw : workflowProject server.store run.snapshot.workflowID = some p)
    (h : server.startRun env run refused = (reply, server')) (brokers : List EventBroker) :
    Kept p named server.store reply server'.store brokers := by
  unfold ApiServer.startRun at h
  split at h
  · cases h
    exact ⟨.refl _ _ _, nofun⟩
  · rename_i store hcommit
    have hcreated : Confined p named server.store store ∧
        store.runs.get? run.id = some { run.snapshot with version := 1 } ∧
        workflowProject store run.snapshot.workflowID = some p := by
      rcases commit_ok hcommit with ⟨hnone, -⟩ | ⟨c, hc, rfl⟩
      · -- a run is created or refused
        rcases prepare_none hnone with ⟨_, _, _, heq⟩ | ⟨_, _, _, heq⟩ <;> cases heq
      · exact confined_createRun hw hc
    simp only at h
    split at h
    · cases h
      exact ⟨hcreated.1, nofun⟩
    · cases h
      refine ⟨hcreated.1, ?_⟩
      rintro status content ⟨⟩
      exact ⟨_, hcreated.2.1, hcreated.2.2, rfl⟩

theorem perform_kept {action : Action} (ht : Tended server.store)
    (hfiled : server.broker.Filed) (hlater : ∀ b ∈ env.later, b.Filed)
    (hw : action.Within server.store p named)
    (h : server.perform env action = (reply, server')) :
    Kept p named server.store reply server'.store (server'.broker :: env.later) := by
  cases action with
  | reply status content =>
    cases h
    refine ⟨.refl _ _ _, ?_⟩
    rintro _ _ ⟨⟩
    exact hw.mono _
  | mutate m refused status content =>
    simp only [ApiServer.perform] at h
    split at h
    · cases h
      exact ⟨.refl _ _ _, nofun⟩
    · rename_i store hcommit
      cases h
      refine ⟨commit_confined ht hw.1 hcommit, ?_⟩
      rintro _ _ ⟨⟩
      exact (commit_shown ht hw.1 hw.2 hcommit).mono _
  | startRun run refused => exact startRun_kept hw.1 h _
  | cancelRun id =>
    have hstore := cancelRun_store server id
    rw [ApiServer.perform] at h
    rw [h] at hstore
    rw [hstore]
    refine ⟨.refl _ _ _, fun status content hreply => ?_⟩
    rw [cancelRun_content ((congrArg Prod.fst h).trans hreply)]
    exact hw
  | streamEvents snapshot sequence =>
    cases h
    refine ⟨.refl _ _ _, ?_⟩
    rintro _ _ ⟨⟩
    refine ⟨hw, fun e he => ?_⟩
    obtain ⟨b, hb, stream, hstream, hevent⟩ := mem_streamedEvents _ he
    refine ⟨?_, b, hb, stream, hstream, hevent⟩
    rcases List.mem_cons.mp hb with rfl | hb
    · exact hfiled.seed snapshot _ _ hstream e hevent
    · exact hlater b hb _ _ hstream e hevent

end Perform

/-! ## Creating a project -/

/-- The new project with its creator as its admin and one event in its audit log, and
nothing besides. A creator who was not known is taken in. -/
structure CreatedProject (principal : Principal) (project : Project) (s s' : FileStore) :
    Prop where
  fresh : s.projects.get? project.id = none
  projects : ∀ q, s'.projects.get? q = if q = project.id then some project else s.projects.get? q
  users : ∀ u, s'.users.get? u = s.users.get? u ∨
    u = principal.userID ∧ s.users.get? u = none
  admin : ∃ m : Membership, m.role = .admin ∧ ∀ q u, s'.membership? q u =
    if q = project.id ∧ u = principal.userID then some m else s.membership? q u
  audit : ∃ e : AuditEvent, e.projectID = project.id ∧ ∀ q, s'.auditEvents.get? q =
    if q = project.id then some ((s.auditEvents.get? q).getD [] ++ [e])
    else s.auditEvents.get? q
  workflows : s'.workflows = s.workflows
  ownerships : s'.ownerships = s.ownerships
  runs : s'.runs = s.runs

theorem createProject_created {s : FileStore} {user : User}
    {project : Project} {membership : Membership} {event : AuditEvent} {c : Commit}
    {principal : Principal} (hs : Sound s) (hid : user.id = principal.userID)
    (h : s.createProject ctx user project membership event = .ok (some c)) :
    CreatedProject principal project s c.next := by
  obtain ⟨hcreate, h⟩ := bind_unit_ok_iff.mp h
  obtain ⟨hnew, h⟩ := bind_unit_ok_iff.mp h
  obtain ⟨known, hknown, h⟩ := bind_eq_ok.mp h
  obtain ⟨haudit, h⟩ := bind_unit_ok_iff.mp h
  cases h
  simp only [FileStore.validateProjectCreation, bind_unit_ok_iff, checkRecord_ok_iff,
    firstError_cons, firstError_nil, and_true, Bool.or_eq_false_iff, decide_eq_false_iff_not,
    not_not, ne_eq] at hcreate
  obtain ⟨-, huser, -, -, hevent, ⟨⟨⟨⟨⟨-, hproject⟩, hmember⟩, hrole⟩, hlog⟩, -⟩⟩ := hcreate
  simp only [firstError_cons, firstError_nil, and_true] at hnew haudit
  have hfresh : s.projects.get? project.id = none := by simpa [KeyMap.contains] using hnew
  obtain ⟨hknownID, -, hknownSame⟩ := knownUser_ok hs huser hknown
  -- the record is not refused, so the second case of its tables applies
  have haccept := FileStore.applySecurityRecord_accepts (s := s) (r := {
      operation := .createProject, user := some known, project := some project,
      membership := some membership, auditEvent := some event })
    (by
      rintro e ⟨⟩
      exact ⟨hevent, haudit⟩)
    (by
      rintro u ⟨⟩
      exact hknownSame)
  obtain ⟨hprojects, hmembers⟩ := FileStore.applySecurityRecord_frame haccept
  rcases securityCommit_tables s _ with hsame | ⟨husers, -, -, hlogs, hworkflows, howners, hruns⟩
  · -- a commit that changed nothing would not hold the new project
    rw [hsame, FileStore.applyParts_projects] at hprojects
    rw [hprojects, KeyMap.get?_insert_self] at hfresh
    cases hfresh
  refine ⟨hfresh, fun q => ?_, fun u => ?_, ⟨membership, hrole, fun q u => ?_⟩,
    ⟨event, hlog, fun q => ?_⟩, ?_, ?_, hruns⟩
  · rw [hprojects, FileStore.applyParts_projects, KeyMap.get?_insert]
  · rcases husers u with hu | ⟨hnone, v, hv, rfl⟩
    · exact .inl hu
    · cases hv
      exact .inr ⟨hknownID.trans hid, hnone⟩
  · rw [hmembers, FileStore.applyParts_membership?]
    simp only [FileStore.membership?_putMember, hproject, hmember, hid]
  · rw [hlogs, FileStore.applyParts_auditEvents]
    simp only [FileStore.addAuditEvent, KeyMap.get?_insert, hlog]
    split
    · rename_i hq
      rw [hq]
    · rfl
  · rw [hworkflows, FileStore.applyParts_workflows]
  · rw [howners, FileStore.applyParts_ownerships]

theorem handleProjects_creates {s : FileStore} {env : Surroundings} {principal : Principal}
    {method : Method} {body : Body ProjectPayload} {action : Action} (hkeyed : s.Keyed)
    (h : handleProjects s env principal method body = .ok action) :
    ∃ user project membership event,
      user.id = principal.userID ∧
      action = .mutate (.createProject env.ctx user project membership event) projectRefused 201
        (.project project) := by
  obtain ⟨-, h⟩ := do_unit_eq_ok.mp h
  obtain ⟨payload, -, h⟩ := do_eq_ok.mp h
  obtain ⟨-, h⟩ := do_unit_eq_ok.mp h
  obtain ⟨existing, hread, h⟩ := do_eq_ok.mp h
  obtain ⟨-, h⟩ := do_unit_eq_ok.mp h
  obtain ⟨randomID, -, h⟩ := do_eq_ok.mp h
  obtain ⟨-, h⟩ := do_unit_eq_ok.mp h
  obtain ⟨-, h⟩ := do_unit_eq_ok.mp h
  cases h
  obtain ⟨-, rfl⟩ := reading_eq_ok.mp hread
  refine ⟨_, _, _, _, ?_, rfl⟩
  cases huser : s.users.get? principal.userID with
  | none => rfl
  | some user => exact hkeyed.users _ _ huser

/-! ## The servers that requests lead to -/

theorem commit_built {s : FileStore} (hs : s.Built) (h : commit s m e = .ok s') : s'.Built := by
  rcases commit_ok h with ⟨-, rfl⟩ | ⟨c, hc, rfl⟩
  · exact hs
  · have hmutate : s.mutate m = c.next := by
      unfold FileStore.mutate
      rw [hc]
    exact hmutate ▸ hs.mutate m

theorem built_tended {s : FileStore} (h : s.Built) : Tended s := by
  induction h with
  | empty => exact tended_empty
  | mutate h m ih =>
    unfold FileStore.mutate
    split
    · rename_i c hc
      exact (ih.commits hc).1
    · exact ih

/-- A store that mutations build, and events in the streams of their runs. -/
structure ApiServer.Filed (server : ApiServer) : Prop where
  store : server.store.Built
  broker : server.broker.Filed

theorem perform_filed {server : ApiServer} (h : server.Filed) (env : Surroundings)
    (action : Action) : (server.perform env action).2.Filed := by
  cases action with
  | reply status content => exact h
  | mutate m refused status content =>
    simp only [ApiServer.perform]
    split
    · exact h
    · rename_i store hcommit
      exact ⟨commit_built h.store hcommit, h.broker⟩
  | startRun run refused =>
    simp only [ApiServer.perform, ApiServer.startRun]
    split
    · exact h
    · rename_i store hcommit
      have hstarted := commit_built h.store hcommit
      split <;> exact ⟨hstarted, h.broker.observe _⟩
  | cancelRun id =>
    simp only [ApiServer.perform, ApiServer.cancelRun]
    split
    · exact ⟨h.store, h.broker⟩
    · split <;> exact ⟨h.store, h.broker⟩
  | streamEvents snapshot sequence => exact ⟨h.store, h.broker.seed snapshot⟩

theorem handle_filed {server : ApiServer} (h : server.Filed) (env : Surroundings)
    (principal : Principal) (method : Method) (route : Route) :
    (server.handle env principal method route).2.Filed := by
  unfold ApiServer.handle
  split
  · exact h
  · exact perform_filed h env _

/-! ## Every request -/

/-- A request that changes the store or is answered with content was authorized in the
project that owns what it is about, keeps to the records of that project and shows
nothing but what is stored of it; a project creation adds the new project and nothing else. -/
theorem request_stays_in_project {server server' : ApiServer} {env : Surroundings}
    {principal : Principal} {method : Method} {route : Route} {reply : Reply}
    (hfiled : server.Filed) (hlater : ∀ b ∈ env.later, b.Filed)
    (h : server.handle env principal method route = (reply, server')) :
    (∀ body, route = .projects body →
      (∀ e, reply = .failed e → server'.store = server.store) ∧
      ∀ status content, reply = .ok status content → ∃ project, content = .project project ∧
        CreatedProject principal project server.store server'.store) ∧
    ((∀ body, route ≠ .projects body) →
      (server'.store ≠ server.store ∨ ∃ status content, reply = .ok status content) →
      ∃ p, route.project? server.store = some p ∧
        Authorized server.store principal p (route.permission method) ∧
        Confined p route.namedUser server.store server'.store ∧
        ∀ status content, reply = .ok status content →
          content.Of server'.store (server'.broker :: env.later) p) := by
  have hkeyed := hfiled.store.sound_keyed.2
  have ht := built_tended hfiled.store
  unfold ApiServer.handle at h
  cases hplan : server.plan env principal method route with
  | error e =>
    rw [hplan] at h
    cases h
    refine ⟨fun _ _ => ⟨fun _ _ => rfl, nofun⟩, fun _ hchange => ?_⟩
    rcases hchange with hchange | ⟨_, _, hreply⟩
    · exact absurd rfl hchange
    · cases hreply
  | ok action =>
    simp only [hplan] at h
    refine ⟨?_, fun hroute _ => ?_⟩
    · rintro body rfl
      obtain ⟨user, project, membership, event, hid, rfl⟩ := handleProjects_creates hkeyed hplan
      simp only [ApiServer.perform] at h
      split at h
      · cases h
        exact ⟨fun _ _ => rfl, nofun⟩
      · rename_i store hcommit
        cases h
        refine ⟨nofun, ?_⟩
        rintro _ _ ⟨⟩
        refine ⟨project, rfl, ?_⟩
        rcases commit_ok hcommit with ⟨hnone, -⟩ | ⟨c, hc, rfl⟩
        · rcases prepare_none hnone with ⟨_, _, _, heq⟩ | ⟨_, _, _, heq⟩ <;> cases heq
        · exact createProject_created ht.sound hid hc
    · obtain ⟨p, hproject, hauth, hw⟩ := plan_settled hkeyed hroute hplan
      obtain ⟨hconfined, hcontent⟩ := perform_kept ht hfiled.broker hlater hw h
      exact ⟨p, hproject, hauth, hconfined, hcontent⟩

/-! ## A project and its admin -/

def ada : Principal := ⟨ascii "ada", ascii "Ada"⟩

def atNoon : Surroundings := { now := 1, randomID := some (ascii "1") }

def emptyServer : ApiServer := { registered := fun _ => true }

/-- The server after `ada` has created a project. -/
def projectServer : ApiServer :=
  (emptyServer.handle { atNoon with randomID := some (ascii "0") } ada .post
    (.projects (.ok ⟨ascii "forge", ascii "Forge"⟩))).2

def addBob : Route := .projectMember (ascii "forge") (ascii "bob") (.ok ⟨ascii "Bob", .member⟩)

theorem projectServer_filed : projectServer.Filed :=
  handle_filed ⟨.empty, EventBroker.filed_empty⟩ _ _ _ _

theorem sample_request_stays_in_project : ∃ p, addBob.project? projectServer.store = some p ∧
    Authorized projectServer.store ada p (addBob.permission .put) ∧
    (Content.membership ⟨ascii "forge", ascii "bob", .member, 1, 1⟩).Of
      (projectServer.handle atNoon ada .put addBob).2.store
      [(projectServer.handle atNoon ada .put addBob).2.broker] p := by
  have hreply : (projectServer.handle atNoon ada .put addBob).1 =
      .ok 201 (.membership ⟨ascii "forge", ascii "bob", .member, 1, 1⟩) := by decide +kernel
  have hhandle : projectServer.handle atNoon ada .put addBob =
      (.ok 201 (.membership ⟨ascii "forge", ascii "bob", .member, 1, 1⟩),
        (projectServer.handle atNoon ada .put addBob).2) := Prod.ext hreply rfl
  have hlater : ∀ b ∈ atNoon.later, b.Filed := fun b hb => absurd hb List.not_mem_nil
  obtain ⟨-, hkept⟩ := request_stays_in_project projectServer_filed hlater hhandle
  obtain ⟨p, hproject, hauth, -, hshown⟩ :=
    hkept (fun body hbody => by cases hbody) (.inr ⟨_, _, rfl⟩)
  exact ⟨p, hproject, hauth, hshown _ _ rfl⟩

/-- Users belong to no project: a membership request of an admin takes in a user who
was not known. And a new project comes with the first event of its audit log. -/
theorem member_request_takes_in_user :
    (projectServer.handle atNoon ada .put addBob).1 =
      .ok 201 (.membership ⟨ascii "forge", ascii "bob", .member, 1, 1⟩) ∧
    projectServer.store.users.get? (ascii "bob") = none ∧
    (projectServer.handle atNoon ada .put addBob).2.store.users.get? (ascii "bob") =
      some ⟨ascii "bob", ascii "Bob", false, 1⟩ ∧
    emptyServer.store.auditEvents.get? (ascii "forge") = none ∧
    projectServer.store.auditEvents.contains (ascii "forge") = true := by
  decide +kernel

end ForgeFlow.Api
