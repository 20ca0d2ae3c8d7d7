import ForgeFlow.Persistence.FileStore
import ForgeFlow.Execution.Validity

/-!
# Replay rebuilds the live state

The live mutations and the replay of their records are two implementations. Each
record an accepted mutation appends is accepted by replay and has the same effect
on the same state, provided the state is one that mutations build.
-/

namespace ForgeFlow.Persistence

open ForgeFlow.Base ForgeFlow.Workflow ForgeFlow.Execution ForgeFlow.Security

variable {s' : FileStore} {label : String} {d : WorkflowDefinition} {snapshot : WorkflowRunSnapshot}
  {entry late ctx : ContextState} {c : Commit} {event : AuditEvent}

/-- What every state that mutations build has. -/
structure Sound (store : FileStore) : Prop where
  workflows : ∀ id d, store.workflows.get? id = some d → cloneDefinition d = d
  users : ∀ id u, store.users.get? id = some u → u.id = id ∧ u.validate = .ok ()
  members : ∀ p u m, store.membership? p u = some m → m.validate = .ok ()

theorem sound_empty : Sound {} where
  workflows := nofun
  users := nofun
  members := nofun

/-! ## The parts of a record -/

namespace FileStore

theorem membership?_putMember (s : FileStore) (m : Membership) (p : ProjectID) (u : UserID) :
    (s.putMember m).membership? p u =
      if p = m.projectID ∧ u = m.userID then some m else s.membership? p u := by
  unfold membership? membersOf putMember
  rw [KeyMap.get?_insert]
  by_cases hp : p = m.projectID
  · subst hp
    simp only [if_true, Option.getD_some, KeyMap.get?_insert, true_and, membersOf]
  · simp [hp]

section Parts

variable (s : FileStore) (r : JournalRecord)

/-- The whole store after the parts of a record. -/
theorem applyParts_eq : s.applyParts r =
    { s with
      projects := match r.project with
        | some p => s.projects.insert p.id p
        | none => s.projects
      memberships := match r.membership with
        | some m => (s.putMember m).memberships
        | none => s.memberships
      workflows := match r.workflow with
        | some d => s.workflows.insert d.id (cloneDefinition d)
        | none => s.workflows
      ownerships := match r.ownership with
        | some o => s.ownerships.insert o.workflowID o
        | none => s.ownerships
      auditEvents := match r.auditEvent with
        | some e => (s.addAuditEvent e).auditEvents
        | none => s.auditEvents
      auditIDs := match r.auditEvent with
        | some e => s.auditIDs.insert e.id ()
        | none => s.auditIDs } := by
  unfold applyParts
  cases r.project <;> cases r.membership <;> cases r.workflow <;> cases r.ownership <;>
    cases r.auditEvent <;> rfl

@[simp] theorem applyParts_users : (s.applyParts r).users = s.users := by rw [applyParts_eq]

@[simp] theorem applyParts_runs : (s.applyParts r).runs = s.runs := by rw [applyParts_eq]

theorem applyParts_workflows : (s.applyParts r).workflows =
    match r.workflow with
    | some d => s.workflows.insert d.id (cloneDefinition d)
    | none => s.workflows := by rw [applyParts_eq]

theorem applyParts_projects : (s.applyParts r).projects =
    match r.project with
    | some p => s.projects.insert p.id p
    | none => s.projects := by rw [applyParts_eq]

theorem applyParts_ownerships : (s.applyParts r).ownerships =
    match r.ownership with
    | some o => s.ownerships.insert o.workflowID o
    | none => s.ownerships := by rw [applyParts_eq]

theorem applyParts_auditEvents : (s.applyParts r).auditEvents =
    match r.auditEvent with
    | some e => (s.addAuditEvent e).auditEvents
    | none => s.auditEvents := by rw [applyParts_eq]

theorem applyParts_membership? (p : ProjectID) (u : UserID) :
    (s.applyParts r).membership? p u =
      match r.membership with
      | some m => (s.putMember m).membership? p u
      | none => s.membership? p u := by
  rw [applyParts_eq]
  cases r.membership <;> rfl

end Parts

/-- A user is taken in once and never replaced. -/
theorem applyUser_ok {s : FileStore} {user : Option User} (h : s.applyUser user = .ok s') :
    s' = s ∨ ∃ u, user = some u ∧ s.users.get? u.id = none ∧
      s' = { s with users := s.users.insert u.id u } := by
  cases user with
  | none =>
    cases h
    exact .inl rfl
  | some u =>
    simp only [applyUser] at h
    split at h
    · split at h
      · cases h
      · cases h
        exact .inl rfl
    · rename_i hnone
      cases h
      exact .inr ⟨u, rfl, hnone, rfl⟩

theorem applySecurityRecord_ok {s : FileStore} {r : JournalRecord}
    (h : s.applySecurityRecord r = .ok s') :
    ∃ s₁, (s₁ = s ∨ ∃ u, r.user = some u ∧ s.users.get? u.id = none ∧
        s₁ = { s with users := s.users.insert u.id u }) ∧
      s' = s₁.applyParts r := by
  obtain ⟨-, h⟩ := bind_unit_ok_iff.mp h
  obtain ⟨s₁, hs₁, h⟩ := bind_eq_ok.mp h
  cases h
  exact ⟨s₁, applyUser_ok hs₁, rfl⟩

/-- The projects and memberships after a record do not depend on its user. -/
theorem applySecurityRecord_frame {s : FileStore} {r : JournalRecord}
    (h : s.applySecurityRecord r = .ok s') :
    s'.projects = (s.applyParts r).projects ∧
      ∀ p u, s'.membership? p u = (s.applyParts r).membership? p u := by
  obtain ⟨s₁, hs₁, rfl⟩ := applySecurityRecord_ok h
  have hp : s₁.projects = s.projects ∧ s₁.memberships = s.memberships := by
    rcases hs₁ with rfl | ⟨u, -, -, rfl⟩ <;> exact ⟨rfl, rfl⟩
  refine ⟨by rw [applyParts_projects, applyParts_projects, hp.1], fun p u => ?_⟩
  simp only [applyParts_membership?, membership?_putMember]
  simp only [membership?, membersOf, hp.2]

/-- Nothing is refused when the audit event is valid and new and a known user is
brought unchanged. -/
theorem applySecurityRecord_accepts {s : FileStore} {r : JournalRecord}
    (hevent : ∀ e, r.auditEvent = some e →
      e.validate = .ok () ∧ s.auditIDs.contains e.id = false)
    (huser : ∀ u, r.user = some u → ∀ v, s.users.get? u.id = some v → v.disabled = u.disabled) :
    s.applySecurityRecord r = .ok (s.securityCommit r).next := by
  have hcheck : s.checkAuditEvent r.auditEvent = .ok () := by
    cases he : r.auditEvent with
    | none => rfl
    | some e => simp [checkAuditEvent, hevent e he]
  have happly : ∃ s₁, s.applyUser r.user = .ok s₁ := by
    cases hu : r.user with
    | none => exact ⟨s, rfl⟩
    | some u =>
      simp only [applyUser]
      cases hv : s.users.get? u.id with
      | none => exact ⟨_, rfl⟩
      | some v => exact ⟨s, if_neg (not_not.mpr (huser u hu v hv))⟩
  obtain ⟨s₁, hs₁⟩ := happly
  have h : s.applySecurityRecord r = .ok (s₁.applyParts r) := by
    rw [applySecurityRecord, hcheck, hs₁]
    rfl
  unfold securityCommit
  rw [h]

end FileStore

theorem Sound.applySecurityRecord {s : FileStore} {r : JournalRecord} (hs : Sound s)
    (huser : ∀ u, r.user = some u → u.validate = .ok ())
    (hmember : ∀ m, r.membership = some m → m.validate = .ok ())
    (h : s.applySecurityRecord r = .ok s') : Sound s' := by
  obtain ⟨s₁, hs₁, rfl⟩ := FileStore.applySecurityRecord_ok h
  have hs₁ : Sound s₁ := by
    rcases hs₁ with rfl | ⟨u, hu, -, rfl⟩
    · exact hs
    · refine ⟨hs.workflows, fun id v hv => ?_, hs.members⟩
      rw [KeyMap.get?_insert] at hv
      split at hv
      · rename_i hid
        cases hv
        exact ⟨hid.symm, huser u hu⟩
      · exact hs.users id v hv
  refine ⟨fun id d hd => ?_, fun id u hu => ?_, fun p u m hm => ?_⟩
  · rw [FileStore.applyParts_workflows] at hd
    cases hw : r.workflow with
    | none =>
      rw [hw] at hd
      exact hs₁.workflows id d hd
    | some d₀ =>
      simp only [hw, KeyMap.get?_insert] at hd
      split at hd
      · cases hd
        exact cloneDefinition_clone d₀
      · exact hs₁.workflows id d hd
  · rw [FileStore.applyParts_users] at hu
    exact hs₁.users id u hu
  · rw [FileStore.applyParts_membership?] at hm
    cases hr : r.membership with
    | none =>
      rw [hr] at hm
      exact hs₁.members p u m hm
    | some m₀ =>
      simp only [hr, FileStore.membership?_putMember] at hm
      split at hm
      · cases hm
        exact hmember m hr
      · exact hs₁.members p u m hm

/-! ## Each mutation and the replay of its record -/

/-- The records that `applySecurityRecord` applies. -/
def JournalOperation.security : JournalOperation → Bool
  | .createProject | .saveProject | .putMembership | .saveOwnedWorkflow => true
  | _ => false

theorem FileStore.applyRecord_security {s : FileStore} {r : JournalRecord}
    (hop : r.operation.security = true) (h : s.applyRecord r = .ok s') :
    s.applySecurityRecord r = .ok s' := by
  unfold FileStore.applyRecord at h
  cases hr : r.operation with
  | saveWorkflow | createRun | saveRun | other =>
    rw [hr] at hop
    cases hop
  | createProject =>
    simp only [hr, applyProjectCreation] at h
    split at h
    · exact (bind_unit_ok_iff.mp (bind_unit_ok_iff.mp h).2).2
    · cases h
  | saveProject =>
    simp only [hr, applyProjectRecord] at h
    split at h
    · exact (bind_unit_ok_iff.mp (bind_unit_ok_iff.mp h).2).2
    · cases h
  | putMembership =>
    simp only [hr, applyMembershipRecord] at h
    split at h
    · exact (bind_unit_ok_iff.mp (bind_unit_ok_iff.mp (bind_unit_ok_iff.mp h).2).2).2
    · cases h
  | saveOwnedWorkflow =>
    simp only [hr, applyOwnedWorkflow] at h
    split at h
    · exact (bind_unit_ok_iff.mp (bind_unit_ok_iff.mp (bind_unit_ok_iff.mp h).2).2).2
    · cases h

/-- Replay accepts the record and comes to the state the mutation made visible. -/
structure Replayed (s : FileStore) (c : Commit) : Prop where
  version : c.record.version = journalVersion
  apply : s.applyRecord c.record = .ok c.next
  sound : Sound c.next

theorem Replayed.of_security {s : FileStore} {r : JournalRecord} (hs : Sound s)
    (hversion : r.version = journalVersion)
    (hevent : ∀ e, r.auditEvent = some e →
      e.validate = .ok () ∧ s.auditIDs.contains e.id = false)
    (huser : ∀ u, r.user = some u → u.validate = .ok () ∧
      ∀ v, s.users.get? u.id = some v → v.disabled = u.disabled)
    (hmember : ∀ m, r.membership = some m → m.validate = .ok ())
    (happly : s.applyRecord r = s.applySecurityRecord r) : Replayed s (s.securityCommit r) := by
  have haccept := FileStore.applySecurityRecord_accepts hevent fun u hu => (huser u hu).2
  exact ⟨hversion, happly.trans haccept,
    hs.applySecurityRecord (fun u hu => (huser u hu).1) hmember haccept⟩

theorem checkDefinition_ok_iff :
    checkDefinition label d = .ok () ↔ d.validate = .ok () := mapError_ok_iff

theorem checkSnapshot_ok_iff :
    checkSnapshot label snapshot = .ok () ↔ snapshot.validate = .ok () := mapError_ok_iff

theorem checkRecord_ok_iff {check : Except GoString Unit} :
    checkRecord label check = .ok () ↔ check = .ok () := mapError_ok_iff

theorem saveWorkflow_replayed {s : FileStore} (hs : Sound s)
    (h : s.saveWorkflow entry late d = .ok (some c)) : Replayed s c := by
  obtain ⟨-, h⟩ := bind_unit_ok_iff.mp h
  obtain ⟨hd, h⟩ := bind_unit_ok_iff.mp h
  rw [checkDefinition_ok_iff] at hd
  split at h
  · split at h <;> cases h
  · rename_i hnone
    obtain ⟨-, h⟩ := bind_unit_ok_iff.mp h
    cases h
    refine ⟨rfl, ?_, ?_, hs.users, hs.members⟩
    · simp [FileStore.applyRecord, FileStore.applyWorkflowRecord, checkDefinition_ok_iff,
        validate_clone, hd, hnone]
    · intro id d' hd'
      simp only [KeyMap.get?_insert] at hd'
      split at hd'
      · cases hd'
        exact cloneDefinition_clone d
      · exact hs.workflows id d' hd'

/-- Validation does not look at the version. -/
theorem validate_version (h : snapshot.validate = .ok ())
    (v : Nat) : { snapshot with version := v }.validate = .ok () := by
  have hv := (WorkflowRunSnapshot.validate_ok_iff snapshot).mp h
  exact (WorkflowRunSnapshot.validate_ok_iff _).mpr ⟨hv.id, hv.workflowID, hv.status, hv.created,
    hv.updated, hv.tasks, hv.taskRuns, hv.taskIDs, hv.oneLease, hv.workers, hv.workerIDs,
    hv.leasedWorkers, hv.aggregate⟩

/-- Neither does the check against the definition. -/
theorem validateRunDefinition_version {s : FileStore}
    (h : s.validateRunDefinition snapshot = .ok ()) (v : Nat) :
    s.validateRunDefinition { snapshot with version := v } = .ok () := by
  unfold FileStore.validateRunDefinition at h ⊢
  cases hd : s.workflows.get? snapshot.workflowID with
  | none =>
    rw [hd] at h
    cases h
  | some d =>
    simp only [hd] at h ⊢
    cases hr : restoreWorkflowRun snapshot d with
    | error e =>
      rw [hr] at h
      cases h
    | ok run =>
      obtain ⟨hv, hdv, -⟩ := restoreWorkflowRun_ok hr
      have hsv := (WorkflowRunSnapshot.validate_ok_iff snapshot).mpr hv
      obtain ⟨run', hr'⟩ := (restoreWorkflowRun_ok_iff (validate_version hsv v) hdv).mpr
        ((restoreWorkflowRun_ok_iff hsv hdv).mp ⟨run, hr⟩)
      rw [hr']

theorem createRun_replayed {s : FileStore} (hs : Sound s)
    (h : s.createRun entry late snapshot = .ok (some c)) : Replayed s c := by
  obtain ⟨-, h⟩ := bind_unit_ok_iff.mp h
  obtain ⟨hv, h⟩ := bind_unit_ok_iff.mp h
  rw [checkSnapshot_ok_iff] at hv
  obtain ⟨hfirst, h⟩ := bind_unit_ok_iff.mp h
  obtain ⟨hdef, h⟩ := bind_unit_ok_iff.mp h
  obtain ⟨-, h⟩ := bind_unit_ok_iff.mp h
  cases h
  simp only [firstError_cons, KeyMap.contains, Option.isSome_eq_false_iff,
    Option.isNone_iff_eq_none] at hfirst
  refine ⟨rfl, ?_, hs.workflows, hs.users, hs.members⟩
  simp [FileStore.applyRecord, FileStore.applyRunRecord, FileStore.numberedRun,
    checkSnapshot_ok_iff, validate_version hv, validateRunDefinition_version hdef, hfirst.1]

theorem saveRun_replayed {s : FileStore} (hs : Sound s)
    (h : s.saveRun entry late snapshot = .ok (some c)) : Replayed s c := by
  obtain ⟨-, h⟩ := bind_unit_ok_iff.mp h
  obtain ⟨hv, h⟩ := bind_unit_ok_iff.mp h
  rw [checkSnapshot_ok_iff] at hv
  split at h
  · cases h
  · rename_i current hcurrent
    obtain ⟨hfirst, h⟩ := bind_unit_ok_iff.mp h
    obtain ⟨hdef, h⟩ := bind_unit_ok_iff.mp h
    obtain ⟨-, h⟩ := bind_unit_ok_iff.mp h
    cases h
    have hversion : snapshot.version = current.version := by simpa using hfirst
    refine ⟨rfl, ?_, hs.workflows, hs.users, hs.members⟩
    simp [FileStore.applyRecord, FileStore.applyRunRecord, FileStore.numberedRun,
      checkSnapshot_ok_iff, validate_version hv, validateRunDefinition_version hdef, hcurrent,
      hversion]

/-- The user that goes into the record is valid, has the ID of the one the call
brought, and agrees with the stored one. -/
theorem knownUser_ok {s : FileStore} {u v : User} (hs : Sound s) (hu : u.validate = .ok ())
    (h : s.knownUser u = .ok v) :
    v.id = u.id ∧ v.validate = .ok () ∧
      ∀ w, s.users.get? v.id = some w → w.disabled = v.disabled := by
  unfold FileStore.knownUser at h
  split at h
  · rename_i existing hexisting
    split at h
    · cases h
    · cases h
      obtain ⟨hid, hvalid⟩ := hs.users _ _ hexisting
      refine ⟨hid, hvalid, fun w hw => ?_⟩
      rw [hid, hexisting] at hw
      cases hw
      rfl
  · rename_i hnone
    cases h
    refine ⟨rfl, hu, fun w hw => ?_⟩
    rw [hnone] at hw
    cases hw

theorem createProject_replayed {s : FileStore} {user : User}
    {project : Project} {membership : Membership}
    (hs : Sound s) (h : s.createProject ctx user project membership event = .ok (some c)) :
    Replayed s c := by
  obtain ⟨hcreate, h⟩ := bind_unit_ok_iff.mp h
  obtain ⟨hnew, h⟩ := bind_unit_ok_iff.mp h
  obtain ⟨known, hknown, h⟩ := bind_eq_ok.mp h
  obtain ⟨haudit, h⟩ := bind_unit_ok_iff.mp h
  cases h
  simp only [FileStore.validateProjectCreation, bind_unit_ok_iff, checkRecord_ok_iff] at hcreate
  obtain ⟨-, huser, hproject, hmember, hevent, hsame⟩ := hcreate
  obtain ⟨hid, hvalid, hdisabled⟩ := knownUser_ok hs huser hknown
  simp only [firstError_cons, firstError_nil, and_true] at hnew haudit
  apply Replayed.of_security hs rfl
  · rintro e ⟨⟩
    exact ⟨hevent, haudit⟩
  · rintro u ⟨⟩
    exact ⟨hvalid, hdisabled⟩
  · rintro m ⟨⟩
    exact hmember
  · simp only [FileStore.applyRecord, FileStore.applyProjectCreation]
    have hagain : FileStore.validateProjectCreation .live known project membership event =
        .ok () := by
      simp only [FileStore.validateProjectCreation, bind_unit_ok_iff, checkRecord_ok_iff]
      rw [hid]
      exact ⟨rfl, hvalid, hproject, hmember, hevent, hsame⟩
    rw [bind_of_ok (mapError_ok_iff.mpr hagain), bind_of_ok (by simp [hnew])]

theorem saveProject_replayed {s : FileStore} {project : Project} (hs : Sound s)
    (h : s.saveProject ctx project event = .ok (some c)) : Replayed s c := by
  obtain ⟨-, h⟩ := bind_unit_ok_iff.mp h
  obtain ⟨hproject, h⟩ := bind_unit_ok_iff.mp h
  obtain ⟨hevent, h⟩ := bind_unit_ok_iff.mp h
  obtain ⟨hsame, h⟩ := bind_unit_ok_iff.mp h
  rw [checkRecord_ok_iff] at hproject hevent
  split at h
  · cases h
  · rename_i existing hexisting
    obtain ⟨hfirst, h⟩ := bind_unit_ok_iff.mp h
    cases h
    simp only [firstError_cons, firstError_nil, and_true] at hfirst hsame
    apply Replayed.of_security hs rfl
    · rintro e ⟨⟩
      exact ⟨hevent, hfirst.2⟩
    · simp
    · simp
    · simp only [FileStore.applyRecord, FileStore.applyProjectRecord]
      rw [bind_of_ok (checkRecord_ok_iff.mpr hproject),
        bind_of_ok (by
          simp only [firstError_cons, firstError_nil, and_true]
          exact ⟨by simp [KeyMap.contains, hexisting], hsame⟩)]

theorem membership_validate_ok_iff (m : Membership) : m.validate = .ok () ↔
    (Security.validIdentifier m.projectID = true ∧ Security.validIdentifier m.userID = true) ∧
      m.role.validate = .ok () ∧ m.createdAt ≠ 0 ∧ m.createdAt ≤ m.updatedAt := by
  simp [Membership.validate]

/-- Replacing keeps what identifies the membership, and the role. -/
theorem replaceMembership_same {s : FileStore} {m m' : Membership}
    (h : s.replaceMembership m = .ok m') :
    m'.projectID = m.projectID ∧ m'.userID = m.userID ∧ m'.role = m.role := by
  unfold FileStore.replaceMembership at h
  split at h
  · cases h
    exact ⟨rfl, rfl, rfl⟩
  · split at h
    · cases h
    · cases h
      exact ⟨rfl, rfl, rfl⟩

theorem replaceMembership_valid {s : FileStore} {m m' : Membership} (hs : Sound s)
    (hm : m.validate = .ok ()) (h : s.replaceMembership m = .ok m') : m'.validate = .ok () := by
  unfold FileStore.replaceMembership at h
  split at h
  · cases h
    exact hm
  · rename_i existing hexisting
    split at h
    · cases h
    · rename_i hle
      cases h
      have hold := (membership_validate_ok_iff existing).mp (hs.members _ _ _ hexisting)
      have hnew := (membership_validate_ok_iff m).mp hm
      exact (membership_validate_ok_iff _).mpr
        ⟨hnew.1, hnew.2.1, hold.2.2.1, hold.2.2.2.trans (not_lt.mp hle)⟩

theorem putMembership_replayed {s : FileStore} {user : User}
    {membership : Membership} (hs : Sound s)
    (h : s.putMembership ctx user membership event = .ok (some c)) : Replayed s c := by
  obtain ⟨-, h⟩ := bind_unit_ok_iff.mp h
  obtain ⟨huser, h⟩ := bind_unit_ok_iff.mp h
  obtain ⟨hmember, h⟩ := bind_unit_ok_iff.mp h
  obtain ⟨hevent, h⟩ := bind_unit_ok_iff.mp h
  obtain ⟨hsame, h⟩ := bind_unit_ok_iff.mp h
  obtain ⟨known, hknown, h⟩ := bind_eq_ok.mp h
  obtain ⟨replaced, hreplaced, h⟩ := bind_eq_ok.mp h
  obtain ⟨haudit, h⟩ := bind_unit_ok_iff.mp h
  cases h
  rw [checkRecord_ok_iff] at huser hmember hevent
  obtain ⟨hid, hvalid, hdisabled⟩ := knownUser_ok hs huser hknown
  obtain ⟨hrproject, hruser, -⟩ := replaceMembership_same hreplaced
  have hrvalid := replaceMembership_valid hs hmember hreplaced
  simp only [firstError_cons, firstError_nil, and_true] at hsame haudit
  apply Replayed.of_security hs rfl
  · rintro e ⟨⟩
    exact ⟨hevent, haudit⟩
  · rintro u ⟨⟩
    exact ⟨hvalid, hdisabled⟩
  · rintro m ⟨⟩
    exact hrvalid
  · simp only [FileStore.applyRecord, FileStore.applyMembershipRecord]
    rw [hrproject, hruser, hid]
    rw [bind_of_ok (checkRecord_ok_iff.mpr hvalid), bind_of_ok (checkRecord_ok_iff.mpr hrvalid),
      bind_of_ok (by simp only [firstError_cons, firstError_nil, hsame, and_self])]

theorem saveWorkflowForProject_replayed {s : FileStore} {ownership : WorkflowOwnership}
    (hs : Sound s) (h : s.saveWorkflowForProject ctx d ownership = .ok (some c)) :
    Replayed s c := by
  obtain ⟨-, h⟩ := bind_unit_ok_iff.mp h
  obtain ⟨hd, h⟩ := bind_unit_ok_iff.mp h
  obtain ⟨hownership, h⟩ := bind_unit_ok_iff.mp h
  obtain ⟨hfirst, h⟩ := bind_unit_ok_iff.mp h
  rw [checkDefinition_ok_iff] at hd
  rw [checkRecord_ok_iff] at hownership
  split at h
  · split at h <;> cases h
  · rename_i hnone
    cases h
    simp only [firstError_cons, firstError_nil, and_true] at hfirst
    obtain ⟨hid, hproject, howner, -, hconflict⟩ := hfirst
    -- a definition that is stored already equals its own copy
    have hclone : ((s.workflows.get? d.id).any fun existing =>
        decide (existing ≠ cloneDefinition d)) = false := by
      cases hw : s.workflows.get? d.id with
      | none => rfl
      | some existing =>
        rw [hw] at hconflict
        have heq : existing = d := by simpa using hconflict
        have hcopy := hs.workflows _ _ hw
        rw [heq] at hcopy
        simp [heq, hcopy]
    apply Replayed.of_security hs rfl
    · simp
    · simp
    · simp
    · simp only [FileStore.applyRecord, FileStore.applyOwnedWorkflow, cloneDefinition_id]
      rw [bind_of_ok (checkDefinition_ok_iff.mpr ((validate_clone d).mpr hd)),
        bind_of_ok (checkRecord_ok_iff.mpr hownership),
        bind_of_ok (by
          simp only [firstError_cons, firstError_nil, and_true]
          exact ⟨hid, hproject, howner, hclone, by rw [hnone]; rfl⟩)]

/-- Every record that a mutation appends replays to the state it made visible. -/
theorem prepare_replayed {s : FileStore} {m : Mutation} (hs : Sound s)
    (h : s.prepare m = .ok (some c)) : Replayed s c := by
  cases m with
  | saveWorkflow entry late d => exact saveWorkflow_replayed hs h
  | createRun entry late snapshot => exact createRun_replayed hs h
  | saveRun entry late snapshot => exact saveRun_replayed hs h
  | createProject ctx user project membership event => exact createProject_replayed hs h
  | saveProject ctx project event => exact saveProject_replayed hs h
  | putMembership ctx user membership event => exact putMembership_replayed hs h
  | saveWorkflowForProject ctx d ownership => exact saveWorkflowForProject_replayed hs h

end ForgeFlow.Persistence
