import ForgeFlow.Persistence.FileStore

/-!
# The strings of records

`encoding/json` writes each ill-formed byte of a string as U+FFFD and everything else
faithfully. So a record is read back with its strings in their valid form.
-/

namespace ForgeFlow.Persistence

open ForgeFlow.Base ForgeFlow.Workflow ForgeFlow.Execution ForgeFlow.Security

/-- The strings of a value, and the value that is read back from its JSON form. -/
class Text (α : Type) where
  strings : α → List GoString
  reread : α → α
  reread_eq_self_iff : ∀ a, reread a = a ↔ ∀ s ∈ strings a, validUTF8 s = true

export Text (strings reread reread_eq_self_iff)

/-- Every string of the value is well-formed. -/
def Plain {α : Type} [Text α] (a : α) : Prop := ∀ s ∈ strings a, validUTF8 s = true

instance {α : Type} [Text α] (a : α) : Decidable (Plain a) := by
  unfold Plain
  infer_instance

section Containers

variable {α : Type} [Text α]

instance : Text GoString where
  strings s := [s]
  reread := toValidUTF8
  reread_eq_self_iff s := by simp [toValidUTF8_eq_self_iff]

instance : Text (Option α) where
  strings o := o.toList.flatMap strings
  reread o := o.map reread
  reread_eq_self_iff o := by cases o <;> simp [reread_eq_self_iff]

instance : Text (List α) where
  strings l := l.flatMap strings
  reread l := l.map reread
  reread_eq_self_iff l := by
    induction l with
    | nil => simp
    | cons a l ih => simp [reread_eq_self_iff, ih, or_imp, forall_and]

instance : Text (Slice α) where
  strings s := strings s.elems
  reread
    | .nil => .nil
    | .of l => .of (reread l)
  reread_eq_self_iff s := by
    cases s with
    | nil => simp [Slice.elems, strings]
    | of l => simp [Slice.elems, reread_eq_self_iff]

/-- The keys are written in their order; of keys that read back the same the last counts. -/
def rereadMap (m : KeyMap GoString GoString) : KeyMap GoString GoString :=
  KeyMap.ofList (m.entries.map fun e => (toValidUTF8 e.1, toValidUTF8 e.2))

theorem rereadMap_of_valid {m : KeyMap GoString GoString}
    (h : ∀ e ∈ m.entries, validUTF8 e.1 = true ∧ validUTF8 e.2 = true) : rereadMap m = m := by
  have hsame : (m.entries.map fun e => (toValidUTF8 e.1, toValidUTF8 e.2)) = m.entries := by
    conv_rhs => rw [← List.map_id m.entries]
    refine List.map_congr_left fun e he => ?_
    rw [toValidUTF8_of_valid (h e he).1, toValidUTF8_of_valid (h e he).2]
    rfl
  rw [rereadMap, hsame, KeyMap.ofList_entries]

theorem valid_of_rereadMap {m : KeyMap GoString GoString} (h : rereadMap m = m) :
    ∀ e ∈ m.entries, validUTF8 e.1 = true ∧ validUTF8 e.2 = true := by
  rintro ⟨key, value⟩ hentry
  -- an entry of the map is an entry that was read back
  have hget : (rereadMap m).get? key = some value := by
    rw [h]
    exact (m.mem_entries_iff key value).mp hentry
  obtain ⟨e, -, heq⟩ := List.mem_map.mp (KeyMap.mem_of_get?_ofList hget)
  cases heq
  exact ⟨validUTF8_toValidUTF8 _, validUTF8_toValidUTF8 _⟩

instance : Text (KeyMap GoString GoString) where
  strings m := m.entries.flatMap fun e => [e.1, e.2]
  reread := rereadMap
  reread_eq_self_iff m := by
    have hstrings : (∀ s ∈ m.entries.flatMap (fun e => [e.1, e.2]), validUTF8 s = true) ↔
        ∀ e ∈ m.entries, validUTF8 e.1 = true ∧ validUTF8 e.2 = true := by
      constructor
      · intro h e he
        exact ⟨h e.1 (List.mem_flatMap.mpr ⟨e, he, by simp⟩),
          h e.2 (List.mem_flatMap.mpr ⟨e, he, by simp⟩)⟩
      · intro h s hs
        obtain ⟨e, he, hs⟩ := List.mem_flatMap.mp hs
        rcases List.mem_pair.mp hs with rfl | rfl
        · exact (h e he).1
        · exact (h e he).2
    rw [hstrings]
    exact ⟨valid_of_rereadMap, rereadMap_of_valid⟩

end Containers

/-! ## The records -/

instance : Text TaskDefinition where
  strings t := strings t.id ++ strings t.name ++ strings t.dependencies ++ strings t.handler ++
    strings t.input
  reread t := { t with
    id := reread t.id, name := reread t.name, dependencies := reread t.dependencies
    handler := reread t.handler, input := reread t.input }
  reread_eq_self_iff t := by
    cases t
    simp [reread_eq_self_iff, or_imp, forall_and]

instance : Text WorkflowDefinition where
  strings d := strings d.id ++ strings d.tasks
  reread d := { id := reread d.id, tasks := reread d.tasks }
  reread_eq_self_iff d := by
    cases d
    simp [reread_eq_self_iff, or_imp, forall_and]

instance : Text TaskRunStatus where
  strings
    | .other text => [text]
    | _ => []
  reread
    | .other text => .other (reread text)
    | status => status
  reread_eq_self_iff status := by
    cases status <;> simp [reread, toValidUTF8_eq_self_iff]

instance : Text WorkflowRunStatus where
  strings
    | .other text => [text]
    | _ => []
  reread
    | .other text => .other (reread text)
    | status => status
  reread_eq_self_iff status := by
    cases status <;> simp [reread, toValidUTF8_eq_self_iff]

instance : Text TaskLease where
  strings l := strings l.workerID ++ strings l.taskRunID ++ strings l.attemptID
  reread l := { l with
    workerID := reread l.workerID, taskRunID := reread l.taskRunID
    attemptID := reread l.attemptID }
  reread_eq_self_iff l := by
    cases l
    simp [reread_eq_self_iff, or_imp, forall_and]

instance : Text TaskRun where
  strings t := strings t.taskID ++ strings t.taskRunID ++ strings t.status ++ strings t.output ++
    strings t.error ++ strings t.currentAttemptID ++ strings t.lease
  reread t := { t with
    taskID := reread t.taskID, taskRunID := reread t.taskRunID, status := reread t.status
    output := reread t.output, error := reread t.error
    currentAttemptID := reread t.currentAttemptID, lease := reread t.lease }
  reread_eq_self_iff t := by
    cases t
    simp [reread_eq_self_iff, or_imp, forall_and]

instance : Text WorkerHeartbeat where
  strings w := strings w.workerID
  reread w := { w with workerID := reread w.workerID }
  reread_eq_self_iff w := by
    cases w
    simp [reread_eq_self_iff]

instance : Text WorkflowRunSnapshot where
  strings s := strings s.id ++ strings s.workflowID ++ strings s.status ++ strings s.tasks ++
    strings s.workers
  reread s := { s with
    id := reread s.id, workflowID := reread s.workflowID, status := reread s.status
    tasks := reread s.tasks, workers := reread s.workers }
  reread_eq_self_iff s := by
    cases s
    simp [reread_eq_self_iff, or_imp, forall_and]

instance : Text Role where
  strings
    | .other text => [text]
    | _ => []
  reread
    | .other text => .other (reread text)
    | role => role
  reread_eq_self_iff role := by
    cases role <;> simp [reread, toValidUTF8_eq_self_iff]

instance : Text User where
  strings u := strings u.id ++ strings u.displayName
  reread u := { u with id := reread u.id, displayName := reread u.displayName }
  reread_eq_self_iff u := by
    cases u
    simp [reread_eq_self_iff, or_imp, forall_and]

instance : Text Project where
  strings p := strings p.id ++ strings p.name ++ strings p.createdBy
  reread p := { p with
    id := reread p.id, name := reread p.name, createdBy := reread p.createdBy }
  reread_eq_self_iff p := by
    cases p
    simp [reread_eq_self_iff, or_imp, forall_and]

instance : Text Security.Membership where
  strings m := strings m.projectID ++ strings m.userID ++ strings m.role
  reread m := { m with
    projectID := reread m.projectID, userID := reread m.userID, role := reread m.role }
  reread_eq_self_iff m := by
    cases m
    simp [reread_eq_self_iff, or_imp, forall_and]

instance : Text WorkflowOwnership where
  strings o := strings o.workflowID ++ strings o.projectID ++ strings o.ownerUserID
  reread o := { o with
    workflowID := reread o.workflowID, projectID := reread o.projectID
    ownerUserID := reread o.ownerUserID }
  reread_eq_self_iff o := by
    cases o
    simp [reread_eq_self_iff, or_imp, forall_and]

instance : Text AuditEvent where
  strings e := strings e.id ++ strings e.projectID ++ strings e.actorUserID ++ strings e.action ++
    strings e.resourceType ++ strings e.resourceID ++ strings e.metadata
  reread e := { e with
    id := reread e.id, projectID := reread e.projectID, actorUserID := reread e.actorUserID
    action := reread e.action, resourceType := reread e.resourceType
    resourceID := reread e.resourceID, metadata := reread e.metadata }
  reread_eq_self_iff e := by
    cases e
    simp [reread_eq_self_iff, or_imp, forall_and]

instance : Text JournalOperation where
  strings
    | .other text => [text]
    | _ => []
  reread
    | .other text => .other (reread text)
    | operation => operation
  reread_eq_self_iff operation := by
    cases operation <;> simp [reread, toValidUTF8_eq_self_iff]

instance : Text JournalRecord where
  strings r := strings r.operation ++ strings r.workflow ++ strings r.run ++ strings r.user ++
    strings r.project ++ strings r.membership ++ strings r.ownership ++ strings r.auditEvent
  reread r := { r with
    operation := reread r.operation, workflow := reread r.workflow, run := reread r.run
    user := reread r.user, project := reread r.project, membership := reread r.membership
    ownership := reread r.ownership, auditEvent := reread r.auditEvent }
  reread_eq_self_iff r := by
    cases r
    simp [reread_eq_self_iff, or_imp, forall_and]

end ForgeFlow.Persistence
