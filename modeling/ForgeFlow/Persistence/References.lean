import ForgeFlow.Persistence.Journal

/-!
# References between the maps of the store

The maps of a file store refer to each other. The checks of each mutation are what
keeps a reference from dangling, and what keeps stored facts from being rewritten by
the record that is applied after the append.
-/

namespace ForgeFlow.Persistence

open ForgeFlow.Base ForgeFlow.Workflow ForgeFlow.Execution ForgeFlow.Security

variable {p : ProjectID} {e event : AuditEvent} {m : Mutation} {ctx : ContextState} {c : Commit}

/-- The audit events of a project, in the order they were recorded. -/
def FileStore.auditOf (s : FileStore) (p : ProjectID) : List AuditEvent :=
  (s.auditEvents.get? p).getD []

/-- Every reference leads to something that is stored. -/
structure References (s : FileStore) : Prop where
  runs : ∀ id run, s.runs.get? id = some run → run.id = id ∧ ∃ d restored,
    s.workflows.get? run.workflowID = some d ∧ restoreWorkflowRun run d = .ok restored
  members : ∀ p u m, s.membership? p u = some m → m.projectID = p ∧ m.userID = u ∧
    s.projects.contains p = true ∧ s.users.contains u = true
  creators : ∀ id project, s.projects.get? id = some project → project.id = id ∧
    s.users.contains project.createdBy = true ∧
      (s.membership? id project.createdBy).isSome = true
  ownerships : ∀ id o, s.ownerships.get? id = some o → o.workflowID = id ∧
    s.workflows.contains id = true ∧ s.projects.contains o.projectID = true ∧
      (s.membership? o.projectID o.ownerUserID).isSome = true
  auditProjects : ∀ p, s.auditEvents.contains p = true → s.projects.contains p = true
  auditIDs : ∀ a, s.auditIDs.contains a = true ↔ ∃ p, ∃ e ∈ s.auditOf p, e.id = a
  /-- An audit ID occurs once in the list of one project. -/
  auditUnique : ∀ p, ((s.auditOf p).map AuditEvent.id).Nodup
  auditApart : ∀ p p', ∀ e ∈ s.auditOf p, ∀ e' ∈ s.auditOf p', e.id = e'.id → p = p'

/-- What was stored is still there as it was. -/
structure Permanent (s s' : FileStore) : Prop where
  workflows : ∀ id d, s.workflows.get? id = some d → s'.workflows.get? id = some d
  users : ∀ id u, s.users.get? id = some u → s'.users.get? id = some u
  projects : ∀ id p, s.projects.get? id = some p → ∃ p', s'.projects.get? id = some p' ∧
    p'.createdBy = p.createdBy ∧ p'.createdAt = p.createdAt
  members : ∀ p u m, s.membership? p u = some m → ∃ m', s'.membership? p u = some m' ∧
    m'.createdAt = m.createdAt
  ownerships : ∀ id o, s.ownerships.get? id = some o → s'.ownerships.get? id = some o
  auditEvents : ∀ p, s.auditOf p <+: s'.auditOf p

theorem references_empty : References {} where
  runs := nofun
  members := nofun
  creators := nofun
  ownerships := nofun
  auditProjects := nofun
  auditIDs _ := ⟨nofun, fun ⟨_, _, he, _⟩ => absurd he List.not_mem_nil⟩
  auditUnique _ := List.nodup_nil
  auditApart _ _ _ he := absurd he List.not_mem_nil

theorem Permanent.refl (s : FileStore) : Permanent s s where
  workflows _ _ h := h
  users _ _ h := h
  projects _ p h := ⟨p, h, rfl, rfl⟩
  members _ _ m h := ⟨m, h, rfl⟩
  ownerships _ _ h := h
  auditEvents _ := List.prefix_rfl

theorem Permanent.trans {s s' s'' : FileStore} (h : Permanent s s') (h' : Permanent s' s'') :
    Permanent s s'' where
  workflows id d hd := h'.workflows id d (h.workflows id d hd)
  users id u hu := h'.users id u (h.users id u hu)
  projects id p hp := by
    obtain ⟨p', hp', hby, hat⟩ := h.projects id p hp
    obtain ⟨p'', hp'', hby', hat'⟩ := h'.projects id p' hp'
    exact ⟨p'', hp'', hby'.trans hby, hat'.trans hat⟩
  members p u m hm := by
    obtain ⟨m', hm', hat⟩ := h.members p u m hm
    obtain ⟨m'', hm'', hat'⟩ := h'.members p u m' hm'
    exact ⟨m'', hm'', hat'.trans hat⟩
  ownerships id o ho := h'.ownerships id o (h.ownerships id o ho)
  auditEvents p := (h.auditEvents p).trans (h'.auditEvents p)

section

variable {s s' : FileStore} {r : JournalRecord}

namespace Permanent

theorem project (h : Permanent s s') (hp : s.projects.contains p = true) :
    s'.projects.contains p = true := by
  obtain ⟨project, hget⟩ := KeyMap.exists_of_contains hp
  obtain ⟨project', hget', -⟩ := h.projects p project hget
  exact KeyMap.contains_of_get? hget'

theorem user (h : Permanent s s') {u : UserID} (hu : s.users.contains u = true) :
    s'.users.contains u = true := by
  obtain ⟨user, hget⟩ := KeyMap.exists_of_contains hu
  exact KeyMap.contains_of_get? (h.users u user hget)

theorem member (h : Permanent s s') {u : UserID}
    (hm : (s.membership? p u).isSome = true) : (s'.membership? p u).isSome = true := by
  obtain ⟨m, hget⟩ := Option.isSome_iff_exists.mp hm
  obtain ⟨m', hget', -⟩ := h.members p u m hget
  rw [hget']
  rfl

/-- A run that is stored as it was refers to its definition still. -/
theorem run (h : Permanent s s') (href : References s) {id : RunID} {run : WorkflowRunSnapshot}
    (hrun : s.runs.get? id = some run) : run.id = id ∧ ∃ d restored,
      s'.workflows.get? run.workflowID = some d ∧ restoreWorkflowRun run d = .ok restored := by
  obtain ⟨hid, d, restored, hd, hrestored⟩ := href.runs id run hrun
  exact ⟨hid, d, restored, h.workflows _ d hd, hrestored⟩

end Permanent

/-! ## Records that may be applied -/

/-- What the checks of a mutation establish about the record it applies. -/
structure Admissible (s : FileStore) (r : JournalRecord) : Prop where
  workflow : ∀ d, r.workflow = some d →
    ∀ existing, s.workflows.get? d.id = some existing → cloneDefinition d = existing
  /-- A project keeps its creator, or comes with one who is a member. -/
  project : ∀ p, r.project = some p →
    (∃ existing, s.projects.get? p.id = some existing ∧ existing.createdBy = p.createdBy ∧
      existing.createdAt = p.createdAt) ∨
    s.projects.get? p.id = none ∧ ∃ user m, r.user = some user ∧ user.id = p.createdBy ∧
      r.membership = some m ∧ m.projectID = p.id ∧ m.userID = p.createdBy
  member : ∀ m, r.membership = some m → (∃ user, r.user = some user ∧ user.id = m.userID) ∧
    (s.projects.contains m.projectID = true ∨ ∃ p, r.project = some p ∧ p.id = m.projectID) ∧
    ∀ existing, s.membership? m.projectID m.userID = some existing →
      m.createdAt = existing.createdAt
  ownership : ∀ o, r.ownership = some o → s.ownerships.get? o.workflowID = none ∧
    (∃ d, r.workflow = some d ∧ d.id = o.workflowID) ∧ s.projects.contains o.projectID = true ∧
      (s.membership? o.projectID o.ownerUserID).isSome = true
  event : ∀ e, r.auditEvent = some e → s.auditIDs.contains e.id = false ∧
    (s.projects.contains e.projectID = true ∨ ∃ p, r.project = some p ∧ p.id = e.projectID)

/-- Applying the parts of a record does not look at the users. -/
theorem applyParts_users_apart (s : FileStore) (users : KeyMap UserID User) (r : JournalRecord) :
    ({ s with users := users } : FileStore).applyParts r =
      { s.applyParts r with users := users } := by
  rw [FileStore.applyParts_eq, FileStore.applyParts_eq]
  rfl

theorem applyParts_auditIDs (s : FileStore) (r : JournalRecord) : (s.applyParts r).auditIDs =
    match r.auditEvent with
    | some e => s.auditIDs.insert e.id ()
    | none => s.auditIDs :=
  congrArg FileStore.auditIDs (FileStore.applyParts_eq s r)

/-- A record that is applied brings its user, unless the user is known. -/
theorem applySecurityRecord_users (h : s.applySecurityRecord r = .ok s') :
    ∃ users, s' = { s.applyParts r with users := users } ∧
      (∀ id u, s.users.get? id = some u → users.get? id = some u) ∧
      ∀ user, r.user = some user → users.contains user.id = true := by
  obtain ⟨-, h⟩ := bind_unit_ok_iff.mp h
  obtain ⟨s₁, hs₁, h⟩ := bind_eq_ok.mp h
  cases h
  cases hr : r.user with
  | none =>
    rw [hr] at hs₁
    cases hs₁
    refine ⟨s.users, ?_, fun _ _ hu => hu, nofun⟩
    rw [← applyParts_users_apart]
  | some user =>
    rw [hr] at hs₁
    simp only [FileStore.applyUser] at hs₁
    split at hs₁
    · rename_i existing hexisting
      split at hs₁
      · cases hs₁
      · cases hs₁
        refine ⟨s.users, ?_, fun _ _ hu => hu, ?_⟩
        · rw [← applyParts_users_apart]
        · rintro _ ⟨⟩
          exact KeyMap.contains_of_get? hexisting
    · rename_i hnone
      cases hs₁
      refine ⟨s.users.insert user.id user, applyParts_users_apart s _ r, fun id u hu => ?_, ?_⟩
      · rw [KeyMap.get?_insert_ne]
        · exact hu
        · rintro rfl
          rw [hnone] at hu
          cases hu
      · rintro _ ⟨⟩
        exact (KeyMap.contains_insert _ _ _ _).mpr (.inl rfl)

theorem auditOf_applyParts (s : FileStore) (r : JournalRecord) (p : ProjectID) :
    (s.applyParts r).auditOf p =
      match r.auditEvent with
      | some e => if p = e.projectID then s.auditOf p ++ [e] else s.auditOf p
      | none => s.auditOf p := by
  unfold FileStore.auditOf
  rw [FileStore.applyParts_auditEvents]
  cases r.auditEvent with
  | none => rfl
  | some e =>
    simp only [FileStore.addAuditEvent, KeyMap.get?_insert]
    split
    · rename_i hp
      rw [hp]
      rfl
    · rfl

theorem Admissible.permanent (ha : Admissible s r) : Permanent s (s.applyParts r) where
  workflows id d hd := by
    rw [FileStore.applyParts_workflows]
    cases hw : r.workflow with
    | none => exact hd
    | some d' =>
      simp only [KeyMap.get?_insert]
      split
      · rename_i hid
        rw [ha.workflow d' hw d (hid ▸ hd)]
      · exact hd
  users id u hu := by
    rw [FileStore.applyParts_users]
    exact hu
  projects id p hp := by
    rw [FileStore.applyParts_projects]
    cases hr : r.project with
    | none => exact ⟨p, hp, rfl, rfl⟩
    | some p' =>
      simp only [KeyMap.get?_insert]
      split
      · rename_i hid
        subst hid
        rcases ha.project p' hr with ⟨existing, hget, hby, hat⟩ | ⟨hnone, -⟩
        · rw [hp] at hget
          cases hget
          exact ⟨p', rfl, hby.symm, hat.symm⟩
        · rw [hp] at hnone
          cases hnone
      · exact ⟨p, hp, rfl, rfl⟩
  members p u m hm := by
    rw [FileStore.applyParts_membership?]
    cases hr : r.membership with
    | none => exact ⟨m, hm, rfl⟩
    | some m' =>
      simp only [FileStore.membership?_putMember]
      split
      · rename_i hkey
        obtain ⟨rfl, rfl⟩ := hkey
        exact ⟨m', rfl, (ha.member m' hr).2.2 m hm⟩
      · exact ⟨m, hm, rfl⟩
  ownerships id o ho := by
    rw [FileStore.applyParts_ownerships]
    cases hr : r.ownership with
    | none => exact ho
    | some o' =>
      simp only [KeyMap.get?_insert]
      split
      · rename_i hid
        subst hid
        rw [(ha.ownership o' hr).1] at ho
        cases ho
      · exact ho
  auditEvents p := by
    rw [auditOf_applyParts]
    cases r.auditEvent with
    | none => exact List.prefix_rfl
    | some e =>
      dsimp only
      split
      · exact List.prefix_append _ _
      · exact List.prefix_rfl

theorem Admissible.permanent_applied (ha : Admissible s r)
    (h : s.applySecurityRecord r = .ok s') : Permanent s s' := by
  obtain ⟨users, rfl, hkept, -⟩ := applySecurityRecord_users h
  have hparts := ha.permanent
  exact ⟨hparts.workflows, hkept, hparts.projects, hparts.members, hparts.ownerships,
    hparts.auditEvents⟩

/-! ## The references after a record -/

theorem projects_applied (h : s.applySecurityRecord r = .ok s') {p : Project}
    (hr : r.project = some p) : s'.projects.get? p.id = some p := by
  obtain ⟨users, rfl, -, -⟩ := applySecurityRecord_users h
  show (s.applyParts r).projects.get? p.id = _
  rw [FileStore.applyParts_projects, hr]
  exact KeyMap.get?_insert_self _ _ _

theorem membership_applied (h : s.applySecurityRecord r = .ok s') (p : ProjectID) (u : UserID) :
    s'.membership? p u =
      match r.membership with
      | some m => if p = m.projectID ∧ u = m.userID then some m else s.membership? p u
      | none => s.membership? p u := by
  obtain ⟨users, rfl, -, -⟩ := applySecurityRecord_users h
  show (s.applyParts r).membership? p u = _
  rw [FileStore.applyParts_membership?]
  cases r.membership with
  | none => rfl
  | some m => exact FileStore.membership?_putMember s m p u

/-- A project the record names is stored after it. -/
theorem Admissible.project_stored (ha : Admissible s r) (h : s.applySecurityRecord r = .ok s')
    (hp : s.projects.contains p = true ∨ ∃ project, r.project = some project ∧
      project.id = p) : s'.projects.contains p = true := by
  rcases hp with hp | ⟨project, hr, rfl⟩
  · exact (ha.permanent_applied h).project hp
  · exact KeyMap.contains_of_get? (projects_applied h hr)

theorem Admissible.user_stored (h : s.applySecurityRecord r = .ok s') {user : User}
    (hr : r.user = some user) : s'.users.contains user.id = true := by
  obtain ⟨users, rfl, -, hnew⟩ := applySecurityRecord_users h
  exact hnew user hr

theorem References.applied_members (href : References s) (ha : Admissible s r)
    (h : s.applySecurityRecord r = .ok s') (p : ProjectID) (u : UserID) (m : Membership)
    (hm : s'.membership? p u = some m) : m.projectID = p ∧ m.userID = u ∧
      s'.projects.contains p = true ∧ s'.users.contains u = true := by
  have hold : ∀ m, s.membership? p u = some m → m.projectID = p ∧ m.userID = u ∧
      s'.projects.contains p = true ∧ s'.users.contains u = true := by
    intro m hm
    obtain ⟨hp, hu, hproject, huser⟩ := href.members p u m hm
    have hkept := ha.permanent_applied h
    exact ⟨hp, hu, hkept.project hproject, hkept.user huser⟩
  rw [membership_applied h] at hm
  cases hr : r.membership with
  | none =>
    rw [hr] at hm
    exact hold m hm
  | some m' =>
    simp only [hr] at hm
    split at hm
    · rename_i hkey
      cases hm
      obtain ⟨rfl, rfl⟩ := hkey
      obtain ⟨⟨user, huser, hid⟩, hproject, -⟩ := ha.member m hr
      exact ⟨rfl, rfl, ha.project_stored h hproject, hid ▸ Admissible.user_stored h huser⟩
    · exact hold m hm

theorem References.applied_creators (href : References s) (ha : Admissible s r)
    (h : s.applySecurityRecord r = .ok s') (id : ProjectID) (project : Project)
    (hget : s'.projects.get? id = some project) : project.id = id ∧
      s'.users.contains project.createdBy = true ∧
        (s'.membership? id project.createdBy).isSome = true := by
  have hkept := ha.permanent_applied h
  have hold : ∀ p, s.projects.get? id = some p → p.id = id ∧
      s'.users.contains p.createdBy = true ∧ (s'.membership? id p.createdBy).isSome = true := by
    intro p hp
    obtain ⟨hid, huser, hmember⟩ := href.creators id p hp
    exact ⟨hid, hkept.user huser, hkept.member hmember⟩
  have hprojects : s'.projects = (s.applyParts r).projects := by
    obtain ⟨users, rfl, -, -⟩ := applySecurityRecord_users h
    rfl
  rw [hprojects, FileStore.applyParts_projects] at hget
  cases hr : r.project with
  | none =>
    rw [hr] at hget
    exact hold project hget
  | some p =>
    simp only [hr, KeyMap.get?_insert] at hget
    split at hget
    · rename_i hid
      cases hget
      subst hid
      rcases ha.project project hr with ⟨existing, hexisting, hby, -⟩ |
        ⟨-, user, m, huser, hcreator, hm, hmp, hmu⟩
      · rw [← hby]
        exact ⟨rfl, (hold existing hexisting).2⟩
      · refine ⟨rfl, hcreator ▸ Admissible.user_stored h huser, ?_⟩
        rw [membership_applied h, hm]
        simp only [hmp, hmu, and_self, if_true, Option.isSome_some]
    · exact hold project hget

theorem References.applied_ownerships (href : References s) (ha : Admissible s r)
    (h : s.applySecurityRecord r = .ok s') (id : WorkflowID) (o : WorkflowOwnership)
    (hget : s'.ownerships.get? id = some o) : o.workflowID = id ∧
      s'.workflows.contains id = true ∧ s'.projects.contains o.projectID = true ∧
        (s'.membership? o.projectID o.ownerUserID).isSome = true := by
  have hkept := ha.permanent_applied h
  have hfields : s'.ownerships = (s.applyParts r).ownerships ∧
      s'.workflows = (s.applyParts r).workflows := by
    obtain ⟨users, rfl, -, -⟩ := applySecurityRecord_users h
    exact ⟨rfl, rfl⟩
  have hold : s.ownerships.get? id = some o → o.workflowID = id ∧
      s'.workflows.contains id = true ∧ s'.projects.contains o.projectID = true ∧
        (s'.membership? o.projectID o.ownerUserID).isSome = true := by
    intro ho
    obtain ⟨hid, hworkflow, hproject, hmember⟩ := href.ownerships id o ho
    obtain ⟨d, hd⟩ := KeyMap.exists_of_contains hworkflow
    exact ⟨hid, KeyMap.contains_of_get? (hkept.workflows id d hd), hkept.project hproject,
      hkept.member hmember⟩
  rw [hfields.1, FileStore.applyParts_ownerships] at hget
  cases hr : r.ownership with
  | none =>
    rw [hr] at hget
    exact hold hget
  | some o' =>
    simp only [hr, KeyMap.get?_insert] at hget
    split at hget
    · rename_i hid
      cases hget
      subst hid
      obtain ⟨-, ⟨d, hd, hdid⟩, hproject, hmember⟩ := ha.ownership o hr
      refine ⟨rfl, ?_, hkept.project hproject, hkept.member hmember⟩
      rw [hfields.2, FileStore.applyParts_workflows, hd, ← hdid]
      exact (KeyMap.contains_insert _ _ _ _).mpr (.inl rfl)
    · exact hold hget

/-- The audit events after a record, one more if it brings one. -/
theorem auditOf_applied (h : s.applySecurityRecord r = .ok s') (p : ProjectID) :
    s'.auditOf p =
      match r.auditEvent with
      | some e => if p = e.projectID then s.auditOf p ++ [e] else s.auditOf p
      | none => s.auditOf p := by
  obtain ⟨users, rfl, -, -⟩ := applySecurityRecord_users h
  exact auditOf_applyParts s r p

theorem mem_auditOf_applied (h : s.applySecurityRecord r = .ok s') : e ∈ s'.auditOf p ↔
      e ∈ s.auditOf p ∨ r.auditEvent = some e ∧ p = e.projectID := by
  rw [auditOf_applied h]
  cases r.auditEvent with
  | none => simp
  | some e' =>
    dsimp only
    split
    · rename_i hp
      rw [List.mem_append, List.mem_singleton, Option.some.injEq]
      refine or_congr_right ⟨fun heq => ⟨heq.symm, heq ▸ hp⟩, fun heq => heq.1.symm⟩
    · rename_i hp
      refine (or_iff_left ?_).symm
      rintro ⟨heq, hp'⟩
      exact hp (Option.some.inj heq ▸ hp')

/-- A new audit event has an ID that occurs nowhere yet. -/
theorem References.fresh (href : References s) (ha : Admissible s r)
    (he : r.auditEvent = some e) {e' : AuditEvent} (he' : e' ∈ s.auditOf p) :
    e'.id ≠ e.id := by
  intro heq
  have hcontains := (href.auditIDs e.id).mpr ⟨p, e', he', heq⟩
  rw [(ha.event e he).1] at hcontains
  cases hcontains

theorem References.applied_auditIDs (href : References s)
    (h : s.applySecurityRecord r = .ok s') (a : AuditEventID) :
    s'.auditIDs.contains a = true ↔ ∃ p, ∃ e ∈ s'.auditOf p, e.id = a := by
  have hids : s'.auditIDs = (s.applyParts r).auditIDs := by
    obtain ⟨users, rfl, -, -⟩ := applySecurityRecord_users h
    rfl
  simp only [mem_auditOf_applied h]
  rw [hids, applyParts_auditIDs]
  cases hr : r.auditEvent with
  | none =>
    simp only [reduceCtorEq, false_and, or_false]
    exact href.auditIDs a
  | some e =>
    simp only [KeyMap.contains_insert, href.auditIDs a, Option.some.injEq]
    constructor
    · rintro (rfl | ⟨p, e', he', hid⟩)
      · exact ⟨e.projectID, e, .inr ⟨rfl, rfl⟩, rfl⟩
      · exact ⟨p, e', .inl he', hid⟩
    · rintro ⟨p, e', he' | ⟨rfl, -⟩, hid⟩
      · exact .inr ⟨p, e', he', hid⟩
      · exact .inl hid.symm

theorem References.applied_auditUnique (href : References s) (ha : Admissible s r)
    (h : s.applySecurityRecord r = .ok s') (p : ProjectID) :
    ((s'.auditOf p).map AuditEvent.id).Nodup := by
  rw [auditOf_applied h]
  cases hr : r.auditEvent with
  | none => exact href.auditUnique p
  | some e =>
    dsimp only
    split
    · rw [List.map_append, List.map_singleton, List.nodup_append]
      refine ⟨href.auditUnique p, List.nodup_singleton _, fun a hmem b hb => ?_⟩
      obtain ⟨e', he', rfl⟩ := List.mem_map.mp hmem
      rw [List.mem_singleton.mp hb]
      exact href.fresh ha hr he'
    · exact href.auditUnique p

theorem References.applied_auditApart (href : References s) (ha : Admissible s r)
    (h : s.applySecurityRecord r = .ok s') {p' : ProjectID} {e' : AuditEvent}
    (he : e ∈ s'.auditOf p) (he' : e' ∈ s'.auditOf p') (hid : e.id = e'.id) : p = p' := by
  rcases (mem_auditOf_applied h).mp he with he | ⟨hr, rfl⟩ <;>
    rcases (mem_auditOf_applied h).mp he' with he' | ⟨hr', rfl⟩
  · exact href.auditApart p p' e he e' he' hid
  · exact absurd hid (href.fresh ha hr' he)
  · exact absurd hid.symm (href.fresh ha hr he')
  · rw [hr] at hr'
    rw [Option.some.inj hr']

theorem References.applied (href : References s) (ha : Admissible s r)
    (h : s.applySecurityRecord r = .ok s') : References s' where
  runs id run hrun := by
    refine (ha.permanent_applied h).run href ?_
    obtain ⟨users, rfl, -, -⟩ := applySecurityRecord_users h
    rw [← FileStore.applyParts_runs s r]
    exact hrun
  members := href.applied_members ha h
  creators := href.applied_creators ha h
  ownerships := href.applied_ownerships ha h
  auditProjects p hp := by
    have hevents : s'.auditEvents = (s.applyParts r).auditEvents := by
      obtain ⟨users, rfl, -, -⟩ := applySecurityRecord_users h
      rfl
    rw [hevents, FileStore.applyParts_auditEvents] at hp
    cases hr : r.auditEvent with
    | none =>
      rw [hr] at hp
      exact (ha.permanent_applied h).project (href.auditProjects p hp)
    | some e =>
      simp only [hr, FileStore.addAuditEvent, KeyMap.contains_insert] at hp
      rcases hp with rfl | hp
      · exact ha.project_stored h (ha.event e hr).2
      · exact (ha.permanent_applied h).project (href.auditProjects p hp)
  auditIDs := href.applied_auditIDs h
  auditUnique := href.applied_auditUnique ha h
  auditApart _ _ _ he _ he' := href.applied_auditApart ha h he he'

end

/-! ## The mutations -/

/-- What a step of the store keeps. -/
structure Upheld (s s' : FileStore) : Prop where
  references : References s'
  permanent : Permanent s s'

theorem Upheld.refl {s : FileStore} (href : References s) : Upheld s s := ⟨href, .refl s⟩

section

variable {s : FileStore}

/-- The error that the live callers drop would have changed nothing. -/
theorem securityCommit_upheld {r : JournalRecord} (href : References s) (ha : Admissible s r) :
    Upheld s (s.securityCommit r).next := by
  unfold FileStore.securityCommit
  cases h : s.applySecurityRecord r with
  | error e => exact .refl href
  | ok s' => exact ⟨href.applied ha h, ha.permanent_applied h⟩

theorem securityCommit_runs (r : JournalRecord) : (s.securityCommit r).next.runs = s.runs := by
  unfold FileStore.securityCommit
  cases h : s.applySecurityRecord r with
  | error e => rfl
  | ok s' =>
    obtain ⟨users, rfl, -, -⟩ := applySecurityRecord_users h
    exact FileStore.applyParts_runs s r

theorem insertWorkflow_upheld {d : WorkflowDefinition} (href : References s)
    (hnone : s.workflows.get? d.id = none) :
    Upheld s { s with workflows := s.workflows.insert d.id (cloneDefinition d) } := by
  have hkept : ∀ id d', s.workflows.get? id = some d' →
      (s.workflows.insert d.id (cloneDefinition d)).get? id = some d' := by
    intro id d' hd'
    rw [KeyMap.get?_insert_ne]
    · exact hd'
    · rintro rfl
      rw [hnone] at hd'
      cases hd'
  have hpermanent :
      Permanent s { s with workflows := s.workflows.insert d.id (cloneDefinition d) } :=
    { Permanent.refl s with workflows := hkept }
  refine ⟨?_, hpermanent⟩
  exact
    { href with
      runs := fun id run hrun => hpermanent.run href hrun
      ownerships := fun id o ho => by
        obtain ⟨hid, hd, hproject, hmember⟩ := href.ownerships id o ho
        obtain ⟨d', hd'⟩ := KeyMap.exists_of_contains hd
        exact ⟨hid, KeyMap.contains_of_get? (hkept id d' hd'), hproject, hmember⟩ }

theorem validateRunDefinition_ok {run : WorkflowRunSnapshot}
    (h : s.validateRunDefinition run = .ok ()) : ∃ d restored,
      s.workflows.get? run.workflowID = some d ∧ restoreWorkflowRun run d = .ok restored := by
  unfold FileStore.validateRunDefinition at h
  split at h
  · cases h
  · rename_i d hd
    split at h
    · cases h
    · rename_i restored hrestored
      exact ⟨d, restored, hd, hrestored⟩

theorem insertRun_upheld {run : WorkflowRunSnapshot} (href : References s)
    (hdef : s.validateRunDefinition run = .ok ()) (v : Nat) :
    Upheld s { s with runs := s.runs.insert run.id { run with version := v } } := by
  refine ⟨{ href with runs := fun id run' hrun => ?_ }, { Permanent.refl s with }⟩
  simp only [KeyMap.get?_insert] at hrun
  split at hrun
  · rename_i hid
    cases hrun
    exact ⟨hid.symm, validateRunDefinition_ok (validateRunDefinition_version hdef v)⟩
  · exact href.runs id run' hrun

theorem replaceMembership_createdAt {m m' existing : Membership}
    (h : s.replaceMembership m = .ok m')
    (hget : s.membership? m.projectID m.userID = some existing) :
    m'.createdAt = existing.createdAt := by
  unfold FileStore.replaceMembership at h
  rw [hget] at h
  dsimp only at h
  split at h
  · cases h
  · cases h
    rfl

/-- What an accepted mutation found, and the state it makes visible. -/
inductive Commits (s : FileStore) : Mutation → FileStore → Prop where
  | saveWorkflow {entry late : ContextState} {d : WorkflowDefinition}
      (new : s.workflows.get? d.id = none) :
      Commits s (.saveWorkflow entry late d)
        { s with workflows := s.workflows.insert d.id (cloneDefinition d) }
  | createRun {entry late : ContextState} {run : WorkflowRunSnapshot}
      (new : s.runs.get? run.id = none) (definition : s.validateRunDefinition run = .ok ()) :
      Commits s (.createRun entry late run)
        { s with runs := s.runs.insert run.id { run with version := 1 } }
  | saveRun {entry late : ContextState} {run current : WorkflowRunSnapshot}
      (known : s.runs.get? run.id = some current) (version : run.version = current.version)
      (definition : s.validateRunDefinition run = .ok ()) :
      Commits s (.saveRun entry late run)
        { s with runs := s.runs.insert run.id { run with version := run.version + 1 } }
  | createProject {ctx : ContextState} {user known : User} {project : Project}
      {membership : Membership} {event : AuditEvent} {r : JournalRecord}
      (record : r = { operation := .createProject, user := some known, project := some project,
                      membership := some membership, auditEvent := some event })
      (new : s.projects.contains project.id = false) (own : membership.projectID = project.id)
      (admin : membership.role = .admin) (admissible : Admissible s r) :
      Commits s (.createProject ctx user project membership event) (s.securityCommit r).next
  | saveProject {ctx : ContextState} {project : Project} {event : AuditEvent} {r : JournalRecord}
      (record : r = { operation := .saveProject, project := some project,
                      auditEvent := some event })
      (logged : event.projectID = project.id) (admissible : Admissible s r) :
      Commits s (.saveProject ctx project event) (s.securityCommit r).next
  | putMembership {ctx : ContextState} {user known : User} {membership replaced : Membership}
      {event : AuditEvent} {r : JournalRecord}
      (replaces : s.replaceMembership membership = .ok replaced)
      (record : r = { operation := .putMembership, user := some known,
                      membership := some replaced, auditEvent := some event })
      (same : known.id = user.id) (logged : event.projectID = membership.projectID)
      (admissible : Admissible s r) :
      Commits s (.putMembership ctx user membership event) (s.securityCommit r).next
  | saveWorkflowForProject {ctx : ContextState} {d : WorkflowDefinition}
      {ownership : WorkflowOwnership} {r : JournalRecord}
      (record : r = { operation := .saveOwnedWorkflow, workflow := some (cloneDefinition d),
                      ownership := some ownership })
      (admissible : Admissible s r) :
      Commits s (.saveWorkflowForProject ctx d ownership) (s.securityCommit r).next

theorem createProject_commits {user : User} {project : Project}
    {membership : Membership} (hs : Sound s)
    (href : References s)
    (h : s.createProject ctx user project membership event = .ok (some c)) :
    Commits s (.createProject ctx user project membership event) c.next := by
  obtain ⟨hcreate, h⟩ := bind_unit_ok_iff.mp h
  obtain ⟨hnew, h⟩ := bind_unit_ok_iff.mp h
  obtain ⟨known, hknown, h⟩ := bind_eq_ok.mp h
  obtain ⟨haudit, h⟩ := bind_unit_ok_iff.mp h
  cases h
  simp only [FileStore.validateProjectCreation, bind_unit_ok_iff, checkRecord_ok_iff] at hcreate
  obtain ⟨-, huser, -, -, -, hsame⟩ := hcreate
  obtain ⟨hid, -, -⟩ := knownUser_ok hs huser hknown
  simp only [firstError_cons, firstError_nil, and_true] at hnew haudit
  simp only [firstError_cons, firstError_nil, and_true, Bool.or_eq_false_iff,
    decide_eq_false_iff_not, ne_eq, not_not] at hsame
  obtain ⟨⟨⟨⟨⟨hcreator, hmp⟩, hmu⟩, hadmin⟩, hep⟩, -⟩ := hsame
  have hnone : s.projects.get? project.id = none := by
    simpa [KeyMap.contains] using hnew
  refine .createProject rfl hnew hmp hadmin ⟨nofun, ?_, ?_, nofun, ?_⟩
  · rintro p ⟨⟩
    exact .inr ⟨hnone, known, membership, rfl, hid.trans hcreator.symm, rfl, hmp,
      hmu.trans hcreator.symm⟩
  · rintro m ⟨⟩
    refine ⟨⟨known, rfl, hid.trans hmu.symm⟩, .inr ⟨project, rfl, hmp.symm⟩, fun old hold => ?_⟩
    -- a project that is not stored has no members
    have hstored := (href.members _ _ old hold).2.2.1
    rw [hmp, hnew] at hstored
    cases hstored
  · rintro e ⟨⟩
    exact ⟨haudit, .inr ⟨project, rfl, hep.symm⟩⟩

theorem saveProject_commits {project : Project}
    (h : s.saveProject ctx project event = .ok (some c)) :
    Commits s (.saveProject ctx project event) c.next := by
  obtain ⟨-, h⟩ := bind_unit_ok_iff.mp h
  obtain ⟨-, h⟩ := bind_unit_ok_iff.mp h
  obtain ⟨-, h⟩ := bind_unit_ok_iff.mp h
  obtain ⟨hsame, h⟩ := bind_unit_ok_iff.mp h
  split at h
  · cases h
  · rename_i existing hexisting
    obtain ⟨hfirst, h⟩ := bind_unit_ok_iff.mp h
    cases h
    simp only [firstError_cons, firstError_nil, and_true, Bool.or_eq_false_iff,
      decide_eq_false_iff_not, ne_eq, not_not] at hfirst hsame
    obtain ⟨⟨hat, hby⟩, haudit⟩ := hfirst
    refine .saveProject rfl hsame ⟨by simp, ?_, by simp, by simp, ?_⟩
    · rintro p ⟨⟩
      exact .inl ⟨existing, hexisting, hby, hat⟩
    · rintro e ⟨⟩
      exact ⟨haudit, .inr ⟨project, rfl, hsame.symm⟩⟩

theorem putMembership_commits {user : User} {membership : Membership} (hs : Sound s)
    (h : s.putMembership ctx user membership event = .ok (some c)) :
    Commits s (.putMembership ctx user membership event) c.next := by
  obtain ⟨-, h⟩ := bind_unit_ok_iff.mp h
  obtain ⟨huser, h⟩ := bind_unit_ok_iff.mp h
  obtain ⟨-, h⟩ := bind_unit_ok_iff.mp h
  obtain ⟨-, h⟩ := bind_unit_ok_iff.mp h
  obtain ⟨hsame, h⟩ := bind_unit_ok_iff.mp h
  obtain ⟨known, hknown, h⟩ := bind_eq_ok.mp h
  obtain ⟨replaced, hreplaced, h⟩ := bind_eq_ok.mp h
  obtain ⟨haudit, h⟩ := bind_unit_ok_iff.mp h
  cases h
  rw [checkRecord_ok_iff] at huser
  obtain ⟨hid, -, -⟩ := knownUser_ok hs huser hknown
  obtain ⟨hrproject, hruser, -⟩ := replaceMembership_same hreplaced
  simp only [firstError_cons, firstError_nil, and_true] at haudit
  simp only [firstError_cons, firstError_nil, and_true, Bool.or_eq_false_iff,
    decide_eq_false_iff_not, ne_eq, not_not, Bool.not_eq_false'] at hsame
  obtain ⟨⟨hmu, hep⟩, hproject⟩ := hsame
  refine .putMembership hreplaced rfl hid hep ⟨by simp, by simp, ?_, by simp, ?_⟩
  · rintro m ⟨⟩
    refine ⟨⟨known, rfl, hid.trans (hmu.symm.trans hruser.symm)⟩, .inl (hrproject ▸ hproject),
      fun existing hexisting => ?_⟩
    rw [hrproject, hruser] at hexisting
    exact replaceMembership_createdAt hreplaced hexisting
  · rintro e ⟨⟩
    exact ⟨haudit, .inl (hep ▸ hproject)⟩

theorem saveWorkflowForProject_commits {d : WorkflowDefinition}
    {ownership : WorkflowOwnership} (hs : Sound s)
    (h : s.saveWorkflowForProject ctx d ownership = .ok (some c)) :
    Commits s (.saveWorkflowForProject ctx d ownership) c.next := by
  obtain ⟨-, h⟩ := bind_unit_ok_iff.mp h
  obtain ⟨-, h⟩ := bind_unit_ok_iff.mp h
  obtain ⟨-, h⟩ := bind_unit_ok_iff.mp h
  obtain ⟨hfirst, h⟩ := bind_unit_ok_iff.mp h
  split at h
  · split at h <;> cases h
  · rename_i hnone
    cases h
    simp only [firstError_cons, firstError_nil, and_true, decide_eq_false_iff_not, ne_eq, not_not,
      Bool.not_eq_false'] at hfirst
    obtain ⟨hid, hproject, howner, -, hconflict⟩ := hfirst
    refine .saveWorkflowForProject rfl ⟨?_, by simp, by simp, ?_, by simp⟩
    · rintro d' ⟨⟩ existing hexisting
      rw [cloneDefinition_id] at hexisting
      have heq : existing = d := by simpa [hexisting] using hconflict
      rw [cloneDefinition_clone, ← heq]
      exact hs.workflows _ _ hexisting
    · rintro o ⟨⟩
      exact ⟨hid ▸ hnone, ⟨_, rfl, (cloneDefinition_id d).trans hid.symm⟩, hproject, howner⟩

theorem prepare_commits (hs : Sound s) (href : References s)
    (h : s.prepare m = .ok (some c)) : Commits s m c.next := by
  cases m with
  | saveWorkflow entry late d =>
    obtain ⟨-, h⟩ := bind_unit_ok_iff.mp h
    obtain ⟨-, h⟩ := bind_unit_ok_iff.mp h
    split at h
    · split at h <;> cases h
    · rename_i hnone
      obtain ⟨-, h⟩ := bind_unit_ok_iff.mp h
      cases h
      exact .saveWorkflow hnone
  | createRun entry late snapshot =>
    obtain ⟨-, h⟩ := bind_unit_ok_iff.mp h
    obtain ⟨-, h⟩ := bind_unit_ok_iff.mp h
    obtain ⟨hfirst, h⟩ := bind_unit_ok_iff.mp h
    obtain ⟨hdef, h⟩ := bind_unit_ok_iff.mp h
    obtain ⟨-, h⟩ := bind_unit_ok_iff.mp h
    cases h
    simp only [firstError_cons, KeyMap.contains, Option.isSome_eq_false_iff,
      Option.isNone_iff_eq_none] at hfirst
    exact .createRun hfirst.1 hdef
  | saveRun entry late snapshot =>
    obtain ⟨-, h⟩ := bind_unit_ok_iff.mp h
    obtain ⟨-, h⟩ := bind_unit_ok_iff.mp h
    split at h
    · cases h
    · rename_i current hcurrent
      obtain ⟨hfirst, h⟩ := bind_unit_ok_iff.mp h
      obtain ⟨hdef, h⟩ := bind_unit_ok_iff.mp h
      obtain ⟨-, h⟩ := bind_unit_ok_iff.mp h
      cases h
      exact .saveRun hcurrent (by simpa using hfirst) hdef
  | createProject ctx user project membership event => exact createProject_commits hs href h
  | saveProject ctx project event => exact saveProject_commits h
  | putMembership ctx user membership event => exact putMembership_commits hs h
  | saveWorkflowForProject ctx d ownership => exact saveWorkflowForProject_commits hs h

theorem Commits.upheld {s' : FileStore} (href : References s)
    (h : Commits s m s') : Upheld s s' := by
  cases h with
  | saveWorkflow new => exact insertWorkflow_upheld href new
  | createRun new definition => exact insertRun_upheld href definition 1
  | saveRun known version definition => exact insertRun_upheld href definition _
  | createProject record new own admin admissible => exact securityCommit_upheld href admissible
  | saveProject record logged admissible => exact securityCommit_upheld href admissible
  | putMembership replaces record same logged admissible =>
    exact securityCommit_upheld href admissible
  | saveWorkflowForProject record admissible => exact securityCommit_upheld href admissible

/-! ## Versions -/

/-- A save of the run. -/
def Mutation.savesRun (id : RunID) : Mutation → Bool
  | .saveRun _ _ snapshot => snapshot.id = id
  | _ => false

/-- The stored version of a run after n accepted saves. -/
def Counted (s : FileStore) (id : RunID) (n : Nat) : Prop :=
  match s.runs.get? id with
  | some run => run.version = 1 + n
  | none => n = 0

theorem Counted.same {s' : FileStore} {id : RunID} {n : Nat} (h : Counted s id n)
    (hruns : s'.runs = s.runs) : Counted s' id n := by
  unfold Counted
  rw [hruns]
  exact h

/-- Only the saves of a run count for its version. -/
theorem Commits.counted {s' : FileStore} (h : Commits s m s') (id : RunID)
    (n : Nat) (hn : Counted s id n) :
    Counted s' id (n + if m.savesRun id = true then 1 else 0) := by
  cases h with
  | saveWorkflow new => exact hn.same rfl
  | @createRun _ _ run new definition =>
    unfold Counted at hn ⊢
    simp only [KeyMap.get?_insert, Mutation.savesRun, Bool.false_eq_true, if_false]
    by_cases hid : id = run.id
    · rw [if_pos hid]
      rw [hid, new] at hn
      dsimp only at hn ⊢
      rw [hn]
    · rw [if_neg hid]
      exact hn
  | @saveRun _ _ run current known version definition =>
    unfold Counted at hn ⊢
    simp only [KeyMap.get?_insert, Mutation.savesRun, decide_eq_true_eq]
    by_cases hid : id = run.id
    · rw [if_pos hid, if_pos hid.symm]
      rw [hid, known] at hn
      dsimp only at hn ⊢
      rw [version, hn, Nat.add_assoc]
    · rw [if_neg hid, if_neg (Ne.symm hid)]
      exact hn
  | createProject record new own admin admissible => exact hn.same (securityCommit_runs _)
  | saveProject record logged admissible => exact hn.same (securityCommit_runs _)
  | putMembership replaces record same logged admissible => exact hn.same (securityCommit_runs _)
  | saveWorkflowForProject record admissible => exact hn.same (securityCommit_runs _)

end

/-! ## Sequences of calls -/

/-- Only a workflow that is there already is accepted without a record. -/
theorem prepare_none {s : FileStore} (h : s.prepare m = .ok none) :
    (∃ entry late d, m = .saveWorkflow entry late d) ∨
      ∃ ctx d o, m = .saveWorkflowForProject ctx d o := by
  cases m with
  | saveWorkflow entry late d => exact .inl ⟨entry, late, d, rfl⟩
  | saveWorkflowForProject ctx d o => exact .inr ⟨ctx, d, o, rfl⟩
  | saveRun entry late snapshot =>
    simp only [FileStore.prepare, FileStore.saveRun, bind_unit_ok_iff] at h
    split at h <;> simp [bind_unit_ok_iff] at h
  | saveProject ctx project event =>
    simp only [FileStore.prepare, FileStore.saveProject, bind_unit_ok_iff] at h
    split at h <;> simp [bind_unit_ok_iff] at h
  | createRun entry late snapshot =>
    simp [FileStore.prepare, FileStore.createRun, bind_unit_ok_iff] at h
  | createProject ctx user project membership event =>
    simp [FileStore.prepare, FileStore.createProject, bind_eq_ok] at h
  | putMembership ctx user membership event =>
    simp [FileStore.prepare, FileStore.putMembership, bind_eq_ok] at h

/-- What holds of a store after some calls. -/
structure Tended (s : FileStore) : Prop where
  sound : Sound s
  references : References s

theorem tended_empty : Tended {} := ⟨sound_empty, references_empty⟩

theorem Tended.commits {s : FileStore} (h : Tended s) (hp : s.prepare m = .ok (some c)) :
    Tended c.next ∧ Permanent s c.next ∧ Commits s m c.next := by
  have hcommits := prepare_commits h.sound h.references hp
  have hupheld := hcommits.upheld h.references
  exact ⟨⟨(prepare_replayed h.sound hp).sound, hupheld.references⟩, hupheld.permanent, hcommits⟩

/-- A call that returns an error leaves the store alone, whatever its append left in
the file. -/
theorem Tended.call (codec : JournalCodec) {s : OpenStore} (h : Tended s.store) (m : Mutation)
    (outcome : AppendOutcome) : Tended (s.call codec m outcome).1.store ∧
      Permanent s.store (s.call codec m outcome).1.store ∧
      ∀ id n, Counted s.store id n → Counted (s.call codec m outcome).1.store id
        (n + (match (s.call codec m outcome).2 with
          | .ok _ => if m.savesRun id = true then 1 else 0
          | .error _ => 0)) := by
  rcases s.call_cases codec m outcome with ⟨e, -, hcall⟩ | ⟨hp, hcall⟩ |
    ⟨c, hp, ⟨-, hcall⟩ | ⟨written, err, -, hcall⟩⟩
  · rw [hcall]
    exact ⟨h, .refl _, fun id n hn => hn⟩
  · rw [hcall]
    refine ⟨h, .refl _, fun id n hn => ?_⟩
    have hsaves : m.savesRun id = false := by
      rcases prepare_none hp with ⟨_, _, _, rfl⟩ | ⟨_, _, _, rfl⟩ <;> rfl
    simp only [hsaves]
    exact hn
  · rw [hcall]
    obtain ⟨hnext, hpermanent, hcommits⟩ := h.commits hp
    exact ⟨hnext, hpermanent, hcommits.counted⟩
  · rw [hcall]
    exact ⟨h, .refl _, fun id n hn => hn⟩

theorem Tended.callAll (codec : JournalCodec) :
    ∀ (calls : List (Mutation × AppendOutcome)) {s : OpenStore}, Tended s.store →
      Tended (s.callAll codec calls).store ∧ Permanent s.store (s.callAll codec calls).store ∧
      ∀ id n, Counted s.store id n → Counted (s.callAll codec calls).store id
        (n + (s.succeeded codec calls).countP (Mutation.savesRun id))
  | [], s, h => ⟨h, .refl _, fun _ _ hn => hn⟩
  | (m, outcome) :: calls, s, h => by
    obtain ⟨hnext, hpermanent, hcounted⟩ := h.call codec m outcome
    obtain ⟨hend, hpermanent', hcounted'⟩ := Tended.callAll codec calls hnext
    refine ⟨hend, hpermanent.trans hpermanent', fun id n hn => ?_⟩
    have hlast := hcounted' id _ (hcounted id n hn)
    simp only [OpenStore.callAll, OpenStore.succeeded]
    cases hresult : (s.call codec m outcome).2 with
    | error e =>
      rw [hresult] at hlast
      exact hlast
    | ok value =>
      rw [hresult] at hlast
      dsimp only at hlast ⊢
      rw [List.countP_cons, Nat.add_comm (List.countP _ _), ← Nat.add_assoc]
      exact hlast

/-- Whatever sequence of mutations has been called on an empty store, and whichever of
their appends failed, no reference of the store dangles, the version of a run counts
its accepted saves, and no later call changes what is stored for good. -/
theorem store_keeps_its_references (codec : JournalCodec)
    (calls : List (Mutation × AppendOutcome)) :
    let s := OpenStore.callAll codec ⟨[], {}⟩ calls
    References s.store ∧
      (∀ id run, s.store.runs.get? id = some run → run.version =
        1 + (OpenStore.succeeded codec ⟨[], {}⟩ calls).countP (Mutation.savesRun id)) ∧
      ∀ more, Permanent s.store (s.callAll codec more).store := by
  obtain ⟨htended, -, hcounted⟩ := Tended.callAll codec calls (s := ⟨[], {}⟩) tended_empty
  refine ⟨htended.references, fun id run hrun => ?_, fun more => ?_⟩
  · have hcount := hcounted id 0 rfl
    rw [Nat.zero_add] at hcount
    unfold Counted at hcount
    rw [hrun] at hcount
    exact hcount
  · exact (Tended.callAll codec more htended).2.1

end ForgeFlow.Persistence
