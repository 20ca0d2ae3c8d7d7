import ForgeFlow.Api.Isolation
import ForgeFlow.Persistence.References

/-!
# What a handler accepts, the store accepts

The handlers, the records and the workflows have checks of their own, with limits of
their own. A request that its handler has accepted should not be turned down by the checks
of the store, and no project should get a name that it can never lose again.
-/

namespace ForgeFlow.Api

open ForgeFlow.Base ForgeFlow.Workflow ForgeFlow.Execution ForgeFlow.Security
  ForgeFlow.Persistence

variable {id randomID : GoString} {p : ProjectID} {actor : UserID} {now : Int}

/-! ## Checks and conflicts -/

/-- An error about what else is stored, and not about the records of the call. -/
def conflicts : StoreError → Bool
  | .workflowNotFound _ | .workflowConflict _ | .runAlreadyExists _ | .runNotFound _
  | .runVersionConflict _ _ _ | .projectAlreadyExists _ | .projectNotFound _ | .userDisabled _
  | .workflowOwnershipConflict _ | .auditEventAlreadyExists _ => true
  | .message _ | .invalidDefinition _ | .invalidRun _ | .wrapped _ _ => false

/-- What the stores check of a call before they look for conflicts: the records one by one
and together, and that a membership is not older than the one it replaces. -/
def storeChecks (store : FileStore) : Mutation → Except StoreError Unit
  | .createProject ctx user project membership event =>
    FileStore.validateProjectCreation ctx user project membership event
  | .saveProject ctx project event =>
    (contextError ctx).bind fun _ =>
    (checkRecord "save project: " project.validate).bind fun _ =>
    (checkRecord "save project audit event: " event.validate).bind fun _ =>
    firstError [(event.projectID ≠ project.id,
      refuse "save project: audit event belongs to another project")]
  | .putMembership ctx user membership event =>
    (contextError ctx).bind fun _ =>
    (checkRecord "put membership user: " user.validate).bind fun _ =>
    (checkRecord "put membership: " membership.validate).bind fun _ =>
    (checkRecord "put membership audit event: " event.validate).bind fun _ =>
    (firstError [(membership.userID ≠ user.id || event.projectID ≠ membership.projectID,
      refuse "put membership: user or audit project does not match membership")]).bind fun _ =>
    (store.replaceMembership membership).map fun _ => ()
  | .saveWorkflowForProject ctx definition ownership =>
    (contextError ctx).bind fun _ =>
    (checkDefinition "save owned workflow definition: " definition).bind fun _ =>
    (checkRecord "save workflow ownership: " ownership.validate).bind fun _ =>
    firstError [(ownership.workflowID ≠ definition.id,
      refuse "save workflow ownership: definition identity does not match")]
  | .saveWorkflow entry _ definition =>
    (contextError entry).bind fun _ => checkDefinition "save workflow definition: " definition
  | .createRun entry _ snapshot =>
    (contextError entry).bind fun _ => checkSnapshot "create workflow run: " snapshot
  | .saveRun entry _ snapshot =>
    (contextError entry).bind fun _ => checkSnapshot "save workflow run: " snapshot

/-- The project that a call stores. -/
def storedProject : Mutation → Option Project
  | .createProject _ _ project _ _ | .saveProject _ project _ => some project
  | _ => none

/-- The twelve random bytes of an ID, in hexadecimal. -/
def HexID (id : GoString) : Prop :=
  id.length = 24 ∧ ∀ b ∈ id, (0x30 ≤ b ∧ b ≤ 0x39) ∨ (0x61 ≤ b ∧ b ≤ 0x66)

/-- What a rename of the project says of it. -/
def renameEvent (project : Project) (name : GoString) (actor : UserID) (now : Int)
    (randomID : GoString) : AuditEvent :=
  newAuditEvent project.id actor "project.updated" "project" project.id
    (KeyMap.ofList [(ascii "old_name", project.name), (ascii "new_name", name)]) now randomID

/-- There is a name that the project can be given, by anyone and at any later time. -/
def Renamable (project : Project) : Prop :=
  ∃ name, ∀ actor now randomID, Security.validIdentifier actor = true →
    project.createdAt ≤ now → now ≠ 0 → HexID randomID →
    { project with name := name, updatedAt := now }.validate = .ok () ∧
      (renameEvent project name actor now randomID).validate = .ok ()

/-- The request keeps to the limits of what is stored in the end. -/
def Route.Fits (store : FileStore) (env : Surroundings) : Route → Prop
  | .projects body => ∀ payload, body = .ok payload → payload.name.length ≤ 500
  | .project p newName => (∀ project, store.projects.get? p = some project →
      project.name.length ≤ 500) ∧ ∀ name, newName = .ok name → name.length ≤ 500
  | .projectMember p u _ => ∀ existing, store.membership? p u = some existing →
      existing.updatedAt ≤ env.now
  | .workflows body => ∀ payload, body = .ok payload → payload.id.length ≤ 256
  | _ => True

/-! ## Audit events -/

theorem printable_hex (h : HexID id) : ∀ b ∈ id, 0x20 < b ∧ b < 0x7F := by
  intro b hb
  rcases h.2 b hb with ⟨hlow, hhigh⟩ | ⟨hlow, hhigh⟩
  · exact ⟨lt_of_lt_of_le (by decide) hlow, lt_of_le_of_lt hhigh (by decide)⟩
  · exact ⟨lt_of_lt_of_le (by decide) hlow, lt_of_le_of_lt hhigh (by decide)⟩

theorem validIdentifier_audit (h : HexID id) :
    Security.validIdentifier (ascii "audit-" ++ id) = true := by
  have hprefix : ∀ b ∈ ascii "audit-", (0x20 : UInt8) < b ∧ b < 0x7F := by decide +kernel
  have hall : ∀ b ∈ ascii "audit-" ++ id, (0x20 : UInt8) < b ∧ b < 0x7F := by
    intro b hb
    rcases List.mem_append.mp hb with hb | hb
    · exact hprefix b hb
    · exact printable_hex h b hb
  have hlength : (ascii "audit-" ++ id).length = 30 := by
    rw [List.length_append, h.1]
    rfl
  rw [Security.validIdentifier, plainIdentifier_eq, all_plainRune_of_printable hall, Bool.and_true,
    Bool.and_eq_true, hlength]
  exact ⟨rfl, by decide⟩

/-- With sound identities an event is refused for its metadata only. -/
theorem newAuditEvent_valid_iff {action resourceType : String}
    {resourceID : GoString} {metadata : KeyMap GoString GoString}
    (hp : Security.validIdentifier p = true) (hactor : Security.validIdentifier actor = true)
    (haction : Security.validIdentifier (ascii action) = true)
    (htype : Security.validIdentifier (ascii resourceType) = true)
    (hresource : Security.validIdentifier resourceID = true) (hnow : now ≠ 0)
    (hrandom : HexID randomID) :
    (newAuditEvent p actor action resourceType resourceID metadata now randomID).validate =
        .ok () ↔
      ∀ e ∈ metadata.entries, Security.validIdentifier e.1 = true ∧ e.2.length ≤ 500 := by
  rw [AuditEvent.validate_ok_iff]
  constructor
  · exact fun h => h.2.2.2
  · exact fun h => ⟨⟨validIdentifier_audit hrandom, hp, hactor⟩, ⟨haction, htype, hresource⟩,
      hnow, h⟩

/-- The entries of two different fields. -/
theorem forall_entries_pair {k k' v v' : GoString} (hne : k ≠ k') {P : GoString × GoString → Prop} :
    (∀ e ∈ (KeyMap.ofList [(k, v), (k', v')]).entries, P e) ↔ P (k, v) ∧ P (k', v') := by
  have hnodup : ([(k, v), (k', v')].map Prod.fst).Nodup := by simpa using hne
  have hmem : ∀ e, e ∈ (KeyMap.ofList [(k, v), (k', v')]).entries ↔ e ∈ [(k, v), (k', v')] :=
    fun e => (KeyMap.mem_entries_iff _ e.1 e.2).trans (KeyMap.get?_ofList_iff hnodup e.1 e.2)
  simp only [hmem, List.forall_mem_cons, List.not_mem_nil, false_implies, implies_true, and_true]

/-- A rename is recorded if both names are short enough. -/
theorem renameEvent_valid_iff {project : Project} {name : GoString}
    (hp : Security.validIdentifier project.id = true)
    (hactor : Security.validIdentifier actor = true) (hnow : now ≠ 0) (hrandom : HexID randomID) :
    (renameEvent project name actor now randomID).validate = .ok () ↔
      project.name.length ≤ 500 ∧ name.length ≤ 500 := by
  have hold : Security.validIdentifier (ascii "old_name") = true := by decide +kernel
  have hnew : Security.validIdentifier (ascii "new_name") = true := by decide +kernel
  rw [renameEvent, newAuditEvent_valid_iff hp hactor (by decide +kernel) (by decide +kernel) hp hnow
    hrandom, forall_entries_pair (by decide +kernel)]
  simp only [hold, hnew, true_and]

theorem role_text_length {role : Role} (h : role.validate = .ok ()) : role.text.length ≤ 500 := by
  cases role with
  | member | operator | admin => decide +kernel
  | other t => simp [Role.validate] at h

/-- A change of role is always recorded. -/
theorem roleEvent_valid {userID : UserID} {role : Role} {old : GoString}
    (hp : Security.validIdentifier p = true) (hactor : Security.validIdentifier actor = true)
    (huser : Security.validIdentifier userID = true) (hold : old.length ≤ 500)
    (hrole : role.validate = .ok ()) (hnow : now ≠ 0) (hrandom : HexID randomID) :
    (newAuditEvent p actor "membership.updated" "user" userID
      (KeyMap.ofList [(ascii "old_role", old), (ascii "new_role", role.text)]) now
      randomID).validate = .ok () := by
  rw [newAuditEvent_valid_iff hp hactor (by decide +kernel) (by decide +kernel) huser hnow hrandom,
    forall_entries_pair (by decide +kernel)]
  have holdKey : Security.validIdentifier (ascii "old_role") = true := by decide +kernel
  have hnewKey : Security.validIdentifier (ascii "new_role") = true := by decide +kernel
  exact ⟨⟨holdKey, hold⟩, hnewKey, role_text_length hrole⟩

/-! ## Names that can be changed again -/

def zeroID : GoString := List.replicate 24 0x30

theorem renamable_iff {project : Project} (h : project.validate = .ok ()) :
    Renamable project ↔ project.name.length ≤ 500 := by
  obtain ⟨hid, -, hcreator, hcreated, -⟩ := project.validate_ok_iff.mp h
  constructor
  · rintro ⟨name, hname⟩
    obtain ⟨-, hevent⟩ := hname project.id (max project.createdAt 1) zeroID hid
      (le_max_left _ _) (by omega) ⟨rfl, by decide +kernel⟩
    exact ((renameEvent_valid_iff hid hid (by omega) ⟨rfl, by decide +kernel⟩).mp hevent).1
  · intro hlength
    have hname : validName (ascii "p") = true := by decide +kernel
    refine ⟨ascii "p", fun actor now randomID hactor hle hnow hrandom => ⟨?_, ?_⟩⟩
    · exact (Project.validate_ok_iff _).mpr ⟨hid, hname, hcreator, hcreated, hle⟩
    · exact (renameEvent_valid_iff hid hactor hnow hrandom).mpr ⟨hlength, by decide +kernel⟩

/-! ## What is left after the checks -/

section

variable {s : FileStore} {ctx : ContextState} {e : StoreError}

/-- The checks that can fire are conflicts. -/
theorem conflicts_of_firstError : ∀ {checks : List (Bool × StoreError)},
    firstError checks = .error e →
    (∀ check ∈ checks, check.1 = true → conflicts check.2 = true) → conflicts e = true
  | (true, _) :: _, h, hall => by
    cases h
    exact hall _ List.mem_cons_self rfl
  | (false, _) :: rest, h, hall => by
    have hrest : firstError rest = .error e := h
    exact conflicts_of_firstError hrest fun check hcheck =>
      hall check (List.mem_cons_of_mem _ hcheck)

theorem conflicts_of_knownUser {user : User} (h : s.knownUser user = .error e) :
    conflicts e = true := by
  unfold FileStore.knownUser at h
  split at h
  · split at h
    · cases h
      rfl
    · cases h
  · cases h

/-- A call that is not refused has passed the checks. -/
theorem checks_of_prepare {m : Mutation} {c : Option Commit} (h : s.prepare m = .ok c) :
    storeChecks s m = .ok () := by
  cases m with
  | createProject ctx user project membership event => exact (bind_unit_ok_iff.mp h).1
  | saveProject ctx project event =>
    obtain ⟨hctx, h⟩ := bind_unit_ok_iff.mp h
    obtain ⟨hproject, h⟩ := bind_unit_ok_iff.mp h
    obtain ⟨hevent, h⟩ := bind_unit_ok_iff.mp h
    simp only [storeChecks, hctx, hproject, hevent]
    exact (bind_unit_ok_iff.mp h).1
  | putMembership ctx user membership event =>
    obtain ⟨hctx, h⟩ := bind_unit_ok_iff.mp h
    obtain ⟨huser, h⟩ := bind_unit_ok_iff.mp h
    obtain ⟨hmembership, h⟩ := bind_unit_ok_iff.mp h
    obtain ⟨hevent, h⟩ := bind_unit_ok_iff.mp h
    obtain ⟨hmatch, h⟩ := bind_unit_ok_iff.mp h
    obtain ⟨known, -, h⟩ := bind_eq_ok.mp h
    obtain ⟨replaced, hreplaced, -⟩ := bind_eq_ok.mp h
    have hfirst := (firstError_cons _ _ _).mp hmatch
    simp only [storeChecks, hctx, huser, hmembership, hevent, hreplaced]
    exact bind_unit_ok_iff.mpr ⟨rfl, bind_unit_ok_iff.mpr ⟨rfl, bind_unit_ok_iff.mpr ⟨rfl,
      bind_unit_ok_iff.mpr ⟨rfl, bind_unit_ok_iff.mpr
        ⟨(firstError_cons _ _ _).mpr ⟨hfirst.1, rfl⟩, rfl⟩⟩⟩⟩⟩
  | saveWorkflowForProject ctx definition ownership =>
    obtain ⟨hctx, h⟩ := bind_unit_ok_iff.mp h
    obtain ⟨hdefinition, h⟩ := bind_unit_ok_iff.mp h
    obtain ⟨hownership, h⟩ := bind_unit_ok_iff.mp h
    have hfirst := (firstError_cons _ _ _).mp (bind_unit_ok_iff.mp h).1
    simp only [storeChecks, hctx, hdefinition, hownership]
    exact (firstError_cons _ _ _).mpr ⟨hfirst.1, rfl⟩
  | saveWorkflow entry late definition =>
    obtain ⟨hctx, h⟩ := bind_unit_ok_iff.mp h
    exact bind_unit_ok_iff.mpr ⟨hctx, (bind_unit_ok_iff.mp h).1⟩
  | createRun entry late snapshot =>
    obtain ⟨hctx, h⟩ := bind_unit_ok_iff.mp h
    exact bind_unit_ok_iff.mpr ⟨hctx, (bind_unit_ok_iff.mp h).1⟩
  | saveRun entry late snapshot =>
    obtain ⟨hctx, h⟩ := bind_unit_ok_iff.mp h
    exact bind_unit_ok_iff.mpr ⟨hctx, (bind_unit_ok_iff.mp h).1⟩

/-- What the call of a handler refers to is stored. -/
def Grounded (s : FileStore) : Mutation → Prop
  | .saveProject _ project _ => ∃ existing, s.projects.get? project.id = some existing ∧
      existing.createdAt = project.createdAt ∧ existing.createdBy = project.createdBy
  | .saveWorkflowForProject _ _ ownership =>
      (s.membersOf ownership.projectID).contains ownership.ownerUserID = true
  | .createProject _ _ _ _ _ | .putMembership _ _ _ _ => True
  | _ => False

/-- A call that has passed the checks is refused for conflicts only. -/
theorem conflicts_of_checks {m : Mutation} (hgrounded : Grounded s m)
    (hchecks : storeChecks s m = .ok ()) (h : s.prepare m = .error e) : conflicts e = true := by
  cases m with
  | createProject ctx user project membership event =>
    have hvalid : FileStore.validateProjectCreation ctx user project membership event = .ok () :=
      hchecks
    rw [FileStore.prepare, FileStore.createProject, bind_of_ok hvalid, bind_eq_error] at h
    rcases h with h | ⟨-, -, h⟩
    · exact conflicts_of_firstError h (by simp [conflicts])
    · rcases bind_eq_error.mp h with h | ⟨known, -, h⟩
      · exact conflicts_of_knownUser h
      · rcases bind_eq_error.mp h with h | ⟨-, -, h⟩
        · exact conflicts_of_firstError h (by simp [conflicts])
        · cases h
  | saveProject ctx project event =>
    obtain ⟨existing, hstored, hcreated, hby⟩ := hgrounded
    obtain ⟨hctx, hchecks⟩ := bind_unit_ok_iff.mp hchecks
    obtain ⟨hproject, hchecks⟩ := bind_unit_ok_iff.mp hchecks
    obtain ⟨hevent, hchecks⟩ := bind_unit_ok_iff.mp hchecks
    rw [FileStore.prepare, FileStore.saveProject, bind_of_ok hctx, bind_of_ok hproject,
      bind_of_ok hevent, bind_of_ok hchecks] at h
    simp only [hstored] at h
    rcases bind_eq_error.mp h with h | ⟨-, -, h⟩
    · exact conflicts_of_firstError h (by simp [conflicts, hcreated, hby])
    · cases h
  | putMembership ctx user membership event =>
    obtain ⟨hctx, hchecks⟩ := bind_unit_ok_iff.mp hchecks
    obtain ⟨huser, hchecks⟩ := bind_unit_ok_iff.mp hchecks
    obtain ⟨hmembership, hchecks⟩ := bind_unit_ok_iff.mp hchecks
    obtain ⟨hevent, hchecks⟩ := bind_unit_ok_iff.mp hchecks
    obtain ⟨hmatch, hchecks⟩ := bind_unit_ok_iff.mp hchecks
    obtain ⟨replaced, hreplaced, -⟩ := map_eq_ok.mp hchecks
    have hfirst := ((firstError_cons _ _ _).mp hmatch).1
    rw [FileStore.prepare, FileStore.putMembership, bind_of_ok hctx, bind_of_ok huser,
      bind_of_ok hmembership, bind_of_ok hevent] at h
    rcases bind_eq_error.mp h with h | ⟨-, -, h⟩
    · rw [hfirst] at h
      exact conflicts_of_firstError h (by simp [conflicts])
    · rcases bind_eq_error.mp h with h | ⟨known, -, h⟩
      · exact conflicts_of_knownUser h
      · rcases bind_eq_error.mp h with h | ⟨replaced', -, h⟩
        · rw [hreplaced] at h
          cases h
        · rcases bind_eq_error.mp h with h | ⟨-, -, h⟩
          · exact conflicts_of_firstError h (by simp [conflicts])
          · cases h
  | saveWorkflowForProject ctx definition ownership =>
    obtain ⟨hctx, hchecks⟩ := bind_unit_ok_iff.mp hchecks
    obtain ⟨hdefinition, hchecks⟩ := bind_unit_ok_iff.mp hchecks
    obtain ⟨hownership, hchecks⟩ := bind_unit_ok_iff.mp hchecks
    have hfirst := ((firstError_cons _ _ _).mp hchecks).1
    have hmember : (s.membersOf ownership.projectID).contains ownership.ownerUserID = true :=
      hgrounded
    rw [FileStore.prepare, FileStore.saveWorkflowForProject, bind_of_ok hctx,
      bind_of_ok hdefinition, bind_of_ok hownership] at h
    rcases bind_eq_error.mp h with h | ⟨-, -, h⟩
    · exact conflicts_of_firstError h (by simp [conflicts, hfirst, hmember])
    · split at h
      · split at h
        · cases h
        · cases h
          rfl
      · cases h
  | saveWorkflow | createRun | saveRun => exact hgrounded.elim

end

/-! ## The four requests -/

/-- What the stores make of a call a handler has come to. -/
structure Judged (s : FileStore) (route : Route) (env : Surroundings) (m : Mutation) : Prop where
  grounded : Grounded s m
  checked : (storeChecks s m = .ok () ∧ ∀ project, storedProject m = some project →
    Renamable project) ↔ route.Fits s env

section

variable {s : FileStore} {env : Surroundings} {principal : Principal} {method : Method}
  {m : Mutation} {refused : StoreError → APIError} {status : Nat} {content : Content}

theorem checkRecord_ok_iff {label : String} {check : Except GoString Unit} :
    checkRecord label check = .ok () ↔ check = .ok () := mapError_ok_iff

theorem handleProjects_judged (hs : Tended s) (hrandom : ∀ id, env.randomID = some id → HexID id)
    {body : Body ProjectPayload}
    (h : handleProjects s env principal method body = .ok (.mutate m refused status content)) :
    Judged s (.projects body) env m := by
  obtain ⟨-, h⟩ := do_unit_eq_ok.mp h
  obtain ⟨payload, rfl, h⟩ := do_eq_ok.mp h
  obtain ⟨-, h⟩ := do_unit_eq_ok.mp h
  obtain ⟨existing, hread, h⟩ := do_eq_ok.mp h
  obtain ⟨-, h⟩ := do_unit_eq_ok.mp h
  obtain ⟨randomID, hid, h⟩ := do_eq_ok.mp h
  obtain ⟨huser, h⟩ := do_unit_eq_ok.mp h
  obtain ⟨hproject, h⟩ := do_unit_eq_ok.mp h
  cases h
  obtain ⟨hctx, rfl⟩ := reading_eq_ok.mp hread
  have hvalid := mapError_ok_iff.mp hproject
  obtain ⟨hp, -, hcreator, hnow, -⟩ := (Project.validate_ok_iff _).mp hvalid
  have hexisting : ((s.users.get? principal.userID).getD
      ⟨principal.userID, principal.displayName, false, env.now⟩).id = principal.userID := by
    cases hget : s.users.get? principal.userID with
    | none => rfl
    | some user => exact (hs.sound.users _ _ hget).1
  refine ⟨trivial, ?_⟩
  have hchecks : storeChecks s (.createProject env.ctx
      ((s.users.get? principal.userID).getD
        ⟨principal.userID, principal.displayName, false, env.now⟩)
      ⟨payload.id, payload.name, principal.userID, env.now, env.now⟩
      ⟨payload.id, principal.userID, .admin, env.now, env.now⟩
      (newAuditEvent payload.id principal.userID "project.created" "project" payload.id ∅ env.now
        randomID)) = .ok () := by
    have hmembership :
        Membership.validate ⟨payload.id, principal.userID, .admin, env.now, env.now⟩ = .ok () :=
      (Membership.validate_ok_iff _).mpr ⟨⟨hp, hcreator⟩, rfl, hnow, le_rfl⟩
    have hevent : (newAuditEvent payload.id principal.userID "project.created" "project" payload.id
        ∅ env.now randomID).validate = .ok () :=
      (newAuditEvent_valid_iff hp hcreator (by decide +kernel) (by decide +kernel) hp hnow
        (hrandom _ (required_ok_iff.mp hid))).mpr nofun
    simp only [storeChecks, FileStore.validateProjectCreation, bind_unit_ok_iff, checkRecord_ok_iff,
      hctx, mapError_ok_iff.mp huser, hvalid, hmembership, hevent, firstError_cons, firstError_nil,
      hexisting]
    simp [newAuditEvent]
  constructor
  · rintro ⟨-, hrename⟩ _ ⟨⟩
    exact (renamable_iff hvalid).mp (hrename _ rfl)
  · refine fun hfits => ⟨hchecks, ?_⟩
    rintro _ ⟨⟩
    exact (renamable_iff hvalid).mpr (hfits payload rfl)

/-- Whoever is authorized in a project has a sound name, and so has the project. -/
theorem identities_of_authorized (hs : Tended s) {permission : Permission}
    (h : Authorized s principal p permission) :
    Security.validIdentifier p = true ∧ Security.validIdentifier principal.userID = true ∧
      s.projects.contains p = true ∧ (s.membersOf p).contains principal.userID = true := by
  obtain ⟨user, membership, -, -, hm, -⟩ := h
  obtain ⟨hproject, huser, hcontains, -⟩ := hs.references.members _ _ _ hm
  obtain ⟨hids, -⟩ := (Membership.validate_ok_iff _).mp (hs.sound.members _ _ _ hm)
  rw [hproject, huser] at hids
  exact ⟨hids.1, hids.2, hcontains, KeyMap.contains_of_get? hm⟩

theorem updateProject_judged (hs : Tended s) (hnow : env.now ≠ 0)
    (hrandom : ∀ id, env.randomID = some id → HexID id)
    {newName : Body GoString}
    (h : handleProject s env principal method p newName = .ok (.mutate m refused status content)) :
    Judged s (.project p newName) env m := by
  obtain ⟨-, h⟩ := do_unit_eq_ok.mp h
  split at h
  · obtain ⟨-, h⟩ := do_unit_eq_ok.mp h
    obtain ⟨project, -, h⟩ := do_eq_ok.mp h
    cases h
  · obtain ⟨hauth, h⟩ := do_unit_eq_ok.mp h
    obtain ⟨name, hname, h⟩ := do_eq_ok.mp h
    obtain ⟨old, hload, h⟩ := do_eq_ok.mp h
    obtain ⟨randomID, hid, h⟩ := do_eq_ok.mp h
    obtain ⟨hproject, h⟩ := do_unit_eq_ok.mp h
    cases h
    obtain ⟨found, hread, hload⟩ := do_eq_ok.mp hload
    obtain ⟨hctx, rfl⟩ := reading_eq_ok.mp hread
    have hstored := required_ok_iff.mp hload
    obtain rfl := (hs.references.creators _ _ hstored).1
    have hvalid := mapError_ok_iff.mp hproject
    obtain ⟨hp, hactor, -, -⟩ := identities_of_authorized hs (authorizeProject_ok hauth)
    have hevent : (renameEvent old name principal.userID env.now randomID).validate = .ok () ↔
        old.name.length ≤ 500 ∧ name.length ≤ 500 :=
      renameEvent_valid_iff hp hactor hnow (hrandom _ (required_ok_iff.mp hid))
    have hchecks : storeChecks s (.saveProject env.ctx
        { old with name := name, updatedAt := env.now }
        (renameEvent old name principal.userID env.now randomID)) = .ok () ↔
          old.name.length ≤ 500 ∧ name.length ≤ 500 := by
      rw [← hevent]
      simp only [storeChecks, bind_unit_ok_iff, checkRecord_ok_iff, hctx, hvalid, true_and,
        firstError_cons, firstError_nil, and_true]
      exact and_iff_left (decide_eq_false (not_not_intro rfl))
    refine ⟨⟨old, hstored, rfl, rfl⟩, ?_⟩
    constructor
    · rintro ⟨hok, -⟩
      obtain ⟨hold, hnew⟩ := hchecks.mp hok
      refine ⟨fun project hget => ?_, fun name' hname' => ?_⟩
      · rw [hstored] at hget
        cases hget
        exact hold
      · rw [hname] at hname'
        cases hname'
        exact hnew
    · rintro ⟨hold, hnew⟩
      refine ⟨hchecks.mpr ⟨hold old hstored, hnew name hname⟩, ?_⟩
      rintro _ ⟨⟩
      exact (renamable_iff hvalid).mpr (hnew name hname)
  · cases h

/-- A membership that replaces another is not older than it. -/
theorem replaceMembership_ok_iff {membership : Membership} :
    (∃ replaced, s.replaceMembership membership = .ok replaced) ↔
      ∀ existing, s.membership? membership.projectID membership.userID = some existing →
        existing.updatedAt ≤ membership.updatedAt := by
  unfold FileStore.replaceMembership
  cases hget : s.membership? membership.projectID membership.userID with
  | none => exact iff_of_true ⟨_, rfl⟩ nofun
  | some existing =>
    by_cases hlt : membership.updatedAt < existing.updatedAt
    · simp only [hlt, if_true]
      exact iff_of_false nofun fun h => absurd (h existing rfl) (not_le.mpr hlt)
    · simp only [hlt, if_false]
      refine iff_of_true ⟨_, rfl⟩ ?_
      rintro _ ⟨⟩
      exact not_lt.mp hlt

/-- What `handleProjectMember` has built, if the membership it found is not newer. -/
theorem putCall_records (hs : Tended s) (request : MemberRequest)
    (hp : Security.validIdentifier request.projectID = true)
    (hactor : Security.validIdentifier request.principal = true)
    (huser : Security.validIdentifier request.userID = true)
    (hrole : request.role.validate = .ok ()) (hnow : now ≠ 0) (hrandom : HexID randomID)
    (hle : ∀ existing, s.membership? request.projectID request.userID = some existing →
      existing.updatedAt ≤ now) :
    (request.newMembership now (s.membership? request.projectID request.userID)).validate =
        .ok () ∧
      (request.auditEvent now (s.membership? request.projectID request.userID) randomID).validate =
        .ok () := by
  cases hget : s.membership? request.projectID request.userID with
  | none =>
    refine ⟨(Membership.validate_ok_iff _).mpr ⟨⟨hp, huser⟩, hrole, hnow, le_rfl⟩, ?_⟩
    exact roleEvent_valid hp hactor huser (Nat.zero_le _) hrole hnow hrandom
  | some existing =>
    obtain ⟨-, holdRole, hcreated, hupdated⟩ :=
      (Membership.validate_ok_iff _).mp (hs.sound.members _ _ _ hget)
    refine ⟨(Membership.validate_ok_iff _).mpr ⟨⟨hp, huser⟩, hrole, hcreated, ?_⟩, ?_⟩
    · exact hupdated.trans (hle existing hget)
    · exact roleEvent_valid hp hactor huser (role_text_length holdRole) hrole hnow hrandom

theorem handleProjectMember_judged (hs : Tended s)
    (hrandom : ∀ id, env.randomID = some id → HexID id) {userID : UserID}
    {body : Body MembershipPayload}
    (h : handleProjectMember s env principal method p userID body =
      .ok (.mutate m refused status content)) :
    Judged s (.projectMember p userID body) env m := by
  obtain ⟨-, h⟩ := do_unit_eq_ok.mp h
  obtain ⟨-, h⟩ := do_unit_eq_ok.mp h
  obtain ⟨hauth, h⟩ := do_unit_eq_ok.mp h
  obtain ⟨-, h⟩ := do_unit_eq_ok.mp h
  obtain ⟨payload, -, h⟩ := do_eq_ok.mp h
  obtain ⟨hrole, h⟩ := do_unit_eq_ok.mp h
  obtain ⟨existing, hread, h⟩ := do_eq_ok.mp h
  obtain ⟨-, h⟩ := do_unit_eq_ok.mp h
  obtain ⟨randomID, hid, h⟩ := do_eq_ok.mp h
  obtain ⟨huser, h⟩ := do_unit_eq_ok.mp h
  cases h
  obtain ⟨hctx, rfl⟩ := reading_eq_ok.mp hread
  obtain ⟨hp, hactor, -, -⟩ := identities_of_authorized hs (authorizeProject_ok hauth)
  have hvalid := mapError_ok_iff.mp huser
  obtain ⟨huserID, -, hnow⟩ := (User.validate_ok_iff _).mp hvalid
  refine ⟨trivial, ?_⟩
  constructor
  · rintro ⟨hchecks, -⟩
    simp only [storeChecks, MemberRequest.putCall, bind_unit_ok_iff, map_eq_ok] at hchecks
    obtain ⟨-, -, -, -, -, replaced, hreplaced, -⟩ := hchecks
    exact replaceMembership_ok_iff.mp ⟨replaced, hreplaced⟩
  · intro hfits
    obtain ⟨hmembership, hevent⟩ := putCall_records hs
      ⟨principal.userID, p, userID, payload.displayName, payload.role⟩ hp hactor huserID
      (mapError_ok_iff.mp hrole) hnow (hrandom _ (required_ok_iff.mp hid)) hfits
    obtain ⟨replaced, hreplaced⟩ : ∃ replaced, s.replaceMembership (MemberRequest.newMembership
        ⟨principal.userID, p, userID, payload.displayName, payload.role⟩ env.now
        (s.membership? p userID)) = .ok replaced :=
      replaceMembership_ok_iff.mpr hfits
    refine ⟨?_, fun _ hproject => by cases hproject⟩
    simp only [storeChecks, MemberRequest.putCall, MemberRequest.newUser, bind_unit_ok_iff,
      map_eq_ok, checkRecord_ok_iff, hctx, hvalid, hmembership, hevent, true_and, firstError_cons,
      firstError_nil, and_true]
    refine ⟨?_, replaced, hreplaced⟩
    simp [MemberRequest.newMembership, MemberRequest.auditEvent, newAuditEvent]

/-- The characters of a resource ID are plain. -/
theorem plainIdentifier_of_validResourceID (h : validResourceID id = true) :
    plainIdentifier id = true := by
  rw [validResourceID, Bool.and_eq_true, decide_eq_true_eq] at h
  rw [plainIdentifier_eq, Bool.and_eq_true]
  refine ⟨by simpa using h.1, List.all_eq_true.mpr fun c hc => ?_⟩
  have hchar := List.all_eq_true.mp h.2 c hc
  simp only [Bool.or_eq_true, Bool.and_eq_true, decide_eq_true_eq] at hchar
  simp only [plainRune, isSpace, isControl, Bool.not_eq_true', Bool.or_eq_false_iff,
    Bool.and_eq_false_iff, decide_eq_false_iff_not, beq_eq_false_iff_ne]
  omega

theorem handleWorkflows_judged (hs : Tended s) (hnow : env.now ≠ 0)
    {registered : HandlerName → Bool} {body : Body WorkflowPayload}
    (h : handleWorkflows s registered env principal method body =
      .ok (.mutate m refused status content)) :
    Judged s (.workflows body) env m := by
  obtain ⟨-, h⟩ := do_unit_eq_ok.mp h
  obtain ⟨payload, hbody, h⟩ := do_eq_ok.mp h
  obtain ⟨definition, hdefinition, h⟩ := do_eq_ok.mp h
  obtain ⟨hid, h⟩ := do_unit_eq_ok.mp h
  obtain ⟨hvalid, h⟩ := do_unit_eq_ok.mp h
  obtain ⟨-, h⟩ := do_unit_eq_ok.mp h
  obtain ⟨-, h⟩ := do_unit_eq_ok.mp h
  obtain ⟨hauth, h⟩ := do_unit_eq_ok.mp h
  obtain ⟨existing, hread, h⟩ := do_eq_ok.mp h
  obtain ⟨-, h⟩ := do_unit_eq_ok.mp h
  cases h
  subst hbody
  obtain ⟨hctx, -⟩ := reading_eq_ok.mp hread
  obtain ⟨tasks, -, hbuilt⟩ := do_eq_ok.mp (mapError_ok_iff.mp hdefinition)
  cases hbuilt
  obtain ⟨hp, hactor, -, hmember⟩ := identities_of_authorized hs (authorizeProject_ok hauth)
  have hplain : plainIdentifier payload.id = true :=
    plainIdentifier_of_validResourceID (by simpa using hid)
  have hchecks : storeChecks s (.saveWorkflowForProject env.ctx ⟨payload.id, tasks⟩
      ⟨payload.id, payload.projectID, principal.userID, env.now⟩) = .ok () ↔
        payload.id.length ≤ 256 := by
    have hdef : checkDefinition "save owned workflow definition: " ⟨payload.id, tasks⟩ = .ok () :=
      mapError_ok_iff.mpr (mapError_ok_iff.mp hvalid)
    have hlimit : Security.validIdentifier payload.id = true ↔ payload.id.length ≤ 256 := by
      rw [Security.validIdentifier, hplain, Bool.true_and]
      exact decide_eq_true_iff
    simp only [storeChecks, bind_unit_ok_iff, checkRecord_ok_iff, hctx, hdef, true_and,
      firstError_cons, firstError_nil, and_true, WorkflowOwnership.validate_ok_iff, hp, hactor,
      hlimit, ne_eq, hnow, not_false_eq_true, not_true_eq_false, decide_false]
  refine ⟨hmember, ?_⟩
  constructor
  · rintro ⟨hok, -⟩ _ ⟨⟩
    exact hchecks.mp hok
  · intro hfits
    exact ⟨hchecks.mpr (hfits payload rfl), fun _ hproject => by cases hproject⟩

/-- Every change of the store that a handler comes to is judged. -/
theorem plan_judged {server : ApiServer} (hs : Tended server.store) (hnow : env.now ≠ 0)
    (hrandom : ∀ id, env.randomID = some id → HexID id) {route : Route}
    (h : server.plan env principal method route = .ok (.mutate m refused status content)) :
    Judged server.store route env m := by
  cases route with
  | projects body => exact handleProjects_judged hs hrandom h
  | project p newName => exact updateProject_judged hs hnow hrandom h
  | projectMember p u body => exact handleProjectMember_judged hs hrandom h
  | workflows body => exact handleWorkflows_judged hs hnow h
  | projectMembers p | projectAuditEvents p =>
    obtain ⟨-, h⟩ := do_unit_eq_ok.mp h
    obtain ⟨-, h⟩ := do_unit_eq_ok.mp h
    obtain ⟨-, h⟩ := do_unit_eq_ok.mp h
    obtain ⟨_, -, h⟩ := do_eq_ok.mp h
    cases h
  | workflow id | run id | runTasks id =>
    obtain ⟨-, h⟩ := do_unit_eq_ok.mp h
    obtain ⟨_, -, h⟩ := do_eq_ok.mp h
    cases h
  | workflowRuns id newRunID =>
    obtain ⟨-, h⟩ := do_unit_eq_ok.mp h
    obtain ⟨_, -, h⟩ := do_eq_ok.mp h
    obtain ⟨-, h⟩ := do_unit_eq_ok.mp h
    obtain ⟨_, -, h⟩ := do_eq_ok.mp h
    cases h
  | runCancellation id =>
    obtain ⟨-, h⟩ := do_unit_eq_ok.mp h
    obtain ⟨_, -, h⟩ := do_eq_ok.mp h
    obtain ⟨-, h⟩ := do_unit_eq_ok.mp h
    cases h
  | runRetry id newRunID =>
    obtain ⟨-, h⟩ := do_unit_eq_ok.mp h
    obtain ⟨_, -, h⟩ := do_eq_ok.mp h
    obtain ⟨-, h⟩ := do_unit_eq_ok.mp h
    obtain ⟨_, -, h⟩ := do_eq_ok.mp h
    obtain ⟨_, -, h⟩ := do_eq_ok.mp h
    obtain ⟨_, -, h⟩ := do_eq_ok.mp h
    cases h
  | runEvents id lastEventID =>
    obtain ⟨-, h⟩ := do_unit_eq_ok.mp h
    obtain ⟨_, -, h⟩ := do_eq_ok.mp h
    obtain ⟨_, -, h⟩ := do_eq_ok.mp h
    obtain ⟨-, h⟩ := do_unit_eq_ok.mp h
    cases h

end

theorem tended_of_built {s : FileStore} (h : s.Built) : Tended s := by
  induction h with
  | empty => exact tended_empty
  | @mutate s _ m ih =>
    unfold FileStore.mutate
    split
    · rename_i c hc
      exact (ih.commits hc).1
    · exact ih

/-- A handler has come to a change of a store that mutations have built. The stores' checks
let it pass, and leave every project with a name it can lose again, exactly if the request
keeps to the limits of the stored records. Then only a conflict with what else is stored can
refuse it; otherwise it is refused. -/
theorem accepted_request_passes_iff {server : ApiServer} {env : Surroundings}
    {principal : Principal} {method : Method} {route : Route} {m : Mutation}
    {refused : StoreError → APIError} {status : Nat} {content : Content}
    (hbuilt : server.store.Built) (hnow : env.now ≠ 0)
    (hrandom : ∀ id, env.randomID = some id → HexID id)
    (hplan : server.plan env principal method route = .ok (.mutate m refused status content)) :
    ((storeChecks server.store m = .ok () ∧
        ∀ project, storedProject m = some project → Renamable project) ↔
      route.Fits server.store env) ∧
    (storeChecks server.store m = .ok () →
      ∀ e, server.store.prepare m = .error e → conflicts e = true) ∧
    ∀ c, server.store.prepare m = .ok c → storeChecks server.store m = .ok () := by
  have hjudged := plan_judged (tended_of_built hbuilt) hnow hrandom hplan
  exact ⟨hjudged.checked, fun hchecks e h => conflicts_of_checks hjudged.grounded hchecks h,
    fun c h => checks_of_prepare h⟩

/-! ## A name for good -/

/-- An environment with a clock reading and random bytes. -/
def readingAt (now : Int) (digit : UInt8) : Surroundings where
  now := now
  randomID := some (List.replicate 24 digit)

/-- One letter and five hundred spaces: trimmed, a short name. -/
def paddedName : GoString := ascii "p" ++ List.replicate 500 0x20

/-- The server after a project was created with that name. -/
def paddedServer : ApiServer :=
  (emptyServer.handle (readingAt 1 0x30) ada .post
    (.projects (.ok ⟨ascii "forge", paddedName⟩))).2

theorem hexID_replicate {digit : UInt8} (h : 0x30 ≤ digit ∧ digit ≤ 0x39) :
    HexID (List.replicate 24 digit) :=
  ⟨List.length_replicate, fun _ hb => .inl (List.eq_of_mem_replicate hb ▸ h)⟩

theorem projectServer_rename_passes : ∃ m refused status content,
    projectServer.plan (readingAt 2 0x31) ada .patch (.project (ascii "forge") (.ok (ascii "q"))) =
      .ok (.mutate m refused status content) ∧ storeChecks projectServer.store m = .ok () := by
  obtain ⟨m, refused, status, content, hplan⟩ : ∃ m refused status content,
      projectServer.plan (readingAt 2 0x31) ada .patch
        (.project (ascii "forge") (.ok (ascii "q"))) = .ok (.mutate m refused status content) :=
    ⟨_, _, _, _, rfl⟩
  refine ⟨m, refused, status, content, hplan, ?_⟩
  have hname : (projectServer.store.projects.get? (ascii "forge")).map Project.name =
      some (ascii "Forge") := by decide +kernel
  have hrandom : ∀ id, (readingAt 2 0x31).randomID = some id → HexID id := by
    rintro _ ⟨⟩
    exact hexID_replicate (by decide)
  refine ((accepted_request_passes_iff projectServer_filed.store (by decide) hrandom
    hplan).1.mpr ⟨fun project hget => ?_, ?_⟩).1
  · rw [hget] at hname
    rw [Option.some.inj hname]
    decide
  · rintro _ ⟨⟩
    decide

/-- An identifier of 257 letters. -/
def longWorkflow : WorkflowPayload where
  id := List.replicate 257 0x61
  projectID := ascii "forge"
  tasks := [⟨ascii "a", ascii "first", [], ascii "h", [], 1, some 0, some 0⟩]

/-- The handler comes to a change that the store turns down. -/
def ApiServer.turnsDown (server : ApiServer) (env : Surroundings) (principal : Principal)
    (method : Method) (route : Route) : Bool :=
  match server.plan env principal method route with
  | .ok (.mutate m _ _ _) => storeChecks server.store m ≠ .ok ()
  | _ => false

/-- The creation is accepted and stored; then a rename is accepted by its handler and turned
down by the store. So is a workflow with a long identifier. -/
theorem paddedName_cannot_be_changed :
    (emptyServer.handle (readingAt 1 0x30) ada .post
      (.projects (.ok ⟨ascii "forge", paddedName⟩))).1 =
        .ok 201 (.project ⟨ascii "forge", paddedName, ascii "ada", 1, 1⟩) ∧
    paddedServer.turnsDown (readingAt 2 0x31) ada .patch
      (.project (ascii "forge") (.ok (ascii "q"))) = true ∧
    (paddedServer.handle (readingAt 2 0x31) ada .patch
      (.project (ascii "forge") (.ok (ascii "q")))).1 =
        .failed (apiError 500 "internal_error" "durable state operation failed" "") ∧
    projectServer.turnsDown (readingAt 2 0x31) ada .post (.workflows (.ok longWorkflow)) =
      true := by
  decide +kernel

end ForgeFlow.Api
