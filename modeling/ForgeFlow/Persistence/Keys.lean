import ForgeFlow.Persistence.Replay

/-!
# Records are filed under their own keys

The maps of the store repeat the identity of a record in its key. Replay inserts a
record nowhere but under the identity it carries, and every mutation has the effect
of the replay of its record, so the two agree in every state that mutations build.
-/

namespace ForgeFlow.Persistence

open ForgeFlow.Base ForgeFlow.Workflow ForgeFlow.Execution ForgeFlow.Security

variable {s s' : FileStore} {r : JournalRecord}

namespace FileStore

/-- Every record stands under the identity it carries. -/
structure Keyed (store : FileStore) : Prop where
  workflows : ∀ id d, store.workflows.get? id = some d → d.id = id
  runs : ∀ id run, store.runs.get? id = some run → run.id = id
  users : ∀ id u, store.users.get? id = some u → u.id = id
  projects : ∀ id p, store.projects.get? id = some p → p.id = id
  members : ∀ p u m, store.membership? p u = some m → m.projectID = p
  auditEvents : ∀ p, ∀ e ∈ (store.auditEvents.get? p).getD [], e.projectID = p

theorem keyed_empty : Keyed {} where
  workflows := nofun
  runs := nofun
  users := nofun
  projects := nofun
  members := nofun
  auditEvents := nofun

/-- A value inserted under its own key keeps a map filed. -/
theorem filed_insert {K V : Type} [LinearOrder K] {key : V → K} {m : KeyMap K V}
    (h : ∀ k v, m.get? k = some v → key v = k) {k : K} {v : V} (hv : key v = k) :
    ∀ k' v', (m.insert k v).get? k' = some v' → key v' = k' := by
  intro k' v' hget
  rw [KeyMap.get?_insert] at hget
  split at hget
  · rename_i hk
    cases hget
    exact hv.trans hk.symm
  · exact h k' v' hget

theorem Keyed.insertWorkflow (h : s.Keyed) (d : WorkflowDefinition) :
    Keyed { s with workflows := s.workflows.insert d.id (cloneDefinition d) } :=
  { h with workflows := filed_insert h.workflows rfl }

theorem Keyed.applyParts (h : s.Keyed) (r : JournalRecord) :
    (s.applyParts r).Keyed := by
  refine ⟨?_, ?_, ?_, ?_, fun p u m hm => ?_, fun p e he => ?_⟩
  · rw [applyParts_workflows]
    cases r.workflow with
    | none => exact h.workflows
    | some d => exact filed_insert h.workflows rfl
  · rw [applyParts_runs]
    exact h.runs
  · rw [applyParts_users]
    exact h.users
  · rw [applyParts_projects]
    cases r.project with
    | none => exact h.projects
    | some p => exact filed_insert h.projects rfl
  · rw [applyParts_membership?] at hm
    cases hr : r.membership with
    | none =>
      rw [hr] at hm
      exact h.members p u m hm
    | some m₀ =>
      simp only [hr, membership?_putMember] at hm
      split at hm
      · rename_i hp
        cases hm
        exact hp.1.symm
      · exact h.members p u m hm
  · rw [applyParts_auditEvents] at he
    cases hr : r.auditEvent with
    | none =>
      rw [hr] at he
      exact h.auditEvents p e he
    | some e₀ =>
      simp only [hr, addAuditEvent, KeyMap.get?_insert] at he
      split at he
      · rename_i hp
        rw [Option.getD_some, List.mem_append, List.mem_singleton] at he
        rcases he with he | rfl
        · exact hp ▸ h.auditEvents _ e he
        · exact hp.symm
      · exact h.auditEvents p e he

theorem Keyed.applySecurityRecord (h : s.Keyed)
    (hr : s.applySecurityRecord r = .ok s') : s'.Keyed := by
  obtain ⟨s₁, hs₁, rfl⟩ := applySecurityRecord_ok hr
  refine Keyed.applyParts ?_ r
  rcases hs₁ with rfl | ⟨u, -, -, rfl⟩
  · exact h
  · exact ⟨h.workflows, h.runs, filed_insert h.users rfl, h.projects, h.members, h.auditEvents⟩

theorem Keyed.runRecord (h : s.Keyed) (hr : s.applyRunRecord r = .ok s') : s'.Keyed := by
  unfold applyRunRecord at hr
  split at hr
  · obtain ⟨-, hr⟩ := bind_unit_ok_iff.mp hr
    obtain ⟨-, hr⟩ := bind_unit_ok_iff.mp hr
    obtain ⟨-, hr⟩ := bind_unit_ok_iff.mp hr
    cases hr
    refine { h with runs := filed_insert h.runs ?_ }
    -- numbering a run leaves its ID alone
    unfold numberedRun
    split <;> rfl
  · cases hr

theorem Keyed.applyRecord (h : s.Keyed) (hr : s.applyRecord r = .ok s') : s'.Keyed := by
  cases hop : r.operation.security with
  | true => exact h.applySecurityRecord (applyRecord_security hop hr)
  | false =>
    unfold FileStore.applyRecord at hr
    cases hr' : r.operation with
    | saveWorkflow =>
      simp only [hr', applyWorkflowRecord] at hr
      split at hr
      · obtain ⟨-, hr⟩ := bind_unit_ok_iff.mp hr
        obtain ⟨-, hr⟩ := bind_unit_ok_iff.mp hr
        cases hr
        exact h.insertWorkflow _
      · cases hr
    | createRun | saveRun =>
      simp only [hr'] at hr
      exact h.runRecord hr
    | other text =>
      simp only [hr'] at hr
      cases hr
    | _ =>
      rw [hr'] at hop
      cases hop

/-- The states that mutations build from an empty store. -/
inductive Built : FileStore → Prop where
  | empty : Built {}
  | mutate {s : FileStore} (h : Built s) (m : Mutation) : Built (s.mutate m)

theorem Built.sound_keyed (h : Built s) : Sound s ∧ s.Keyed := by
  induction h with
  | empty => exact ⟨sound_empty, keyed_empty⟩
  | @mutate s _ m ih =>
    unfold FileStore.mutate
    split
    · rename_i c hc
      have hreplayed := prepare_replayed ih.1 hc
      exact ⟨hreplayed.sound, ih.2.applyRecord hreplayed.apply⟩
    · exact ih

end FileStore

end ForgeFlow.Persistence
