import ForgeFlow.Persistence.Postgres

/-!
# The two stores save the same runs

The file store and the PostgreSQL store check a save in different places: the one in
the code and against the snapshot it holds, the other partly in the conditions of its
statements and the types of its columns, partly by not setting columns. Where they agree,
and where they do not. Times are taken to be of years that JSON can write as well as a
column.
-/

namespace ForgeFlow.Persistence

open ForgeFlow.Base ForgeFlow.Workflow ForgeFlow.Execution ForgeFlow.Security

variable {a b : WorkflowRunSnapshot} {t : TaskRun} {result : Database × WorkflowRunSnapshot}
  {row : RunRow} {c : Commit}

/-! ## Aggregates up to microseconds and order -/

def microTask (task : TaskRun) : TaskRun :=
  { task with
    nextAttemptAt := microseconds task.nextAttemptAt
    lease := task.lease.map fun lease => { lease with expiresAt := microseconds lease.expiresAt }
    updatedAt := microseconds task.updatedAt
    startedAt := microseconds task.startedAt
    finishedAt := microseconds task.finishedAt }

def microWorker (worker : WorkerHeartbeat) : WorkerHeartbeat :=
  { worker with lastHeartbeatAt := microseconds worker.lastHeartbeatAt }

/-- The snapshot with its times cut to microseconds. -/
def truncated (snapshot : WorkflowRunSnapshot) : WorkflowRunSnapshot :=
  { snapshot with
    createdAt := microseconds snapshot.createdAt
    updatedAt := microseconds snapshot.updatedAt
    tasks := snapshot.tasks.map microTask
    workers := snapshot.workers.map microWorker }

/-- The same aggregate, whatever the order of the tasks and workers. -/
structure Reordered (a b : WorkflowRunSnapshot) : Prop where
  id : a.id = b.id
  workflowID : a.workflowID = b.workflowID
  version : a.version = b.version
  status : a.status = b.status
  createdAt : a.createdAt = b.createdAt
  updatedAt : a.updatedAt = b.updatedAt
  tasks : a.tasks.Perm b.tasks
  workers : a.workers.Perm b.workers

/-- The same aggregate up to the microsecond and the order. -/
def SameAggregate (a b : WorkflowRunSnapshot) : Prop := Reordered (truncated a) (truncated b)

theorem Reordered.symm (h : Reordered a b) : Reordered b a :=
  ⟨h.id.symm, h.workflowID.symm, h.version.symm, h.status.symm, h.createdAt.symm,
    h.updatedAt.symm, h.tasks.symm, h.workers.symm⟩

theorem Reordered.truncated (h : Reordered a b) :
    SameAggregate a b :=
  ⟨h.id, h.workflowID, h.version, h.status, congrArg microseconds h.createdAt,
    congrArg microseconds h.updatedAt, h.tasks.map _, h.workers.map _⟩

theorem aggregateStatus_perm {status : WorkflowRunStatus} {tasks tasks' : List TaskRun}
    (hp : tasks.Perm tasks') (h : AggregateStatus status tasks) :
    AggregateStatus status tasks' := by
  cases status with
  | pending => exact fun t ht => h t (hp.mem_iff.mpr ht)
  | succeeded => exact fun t ht => h t (hp.mem_iff.mpr ht)
  | failed =>
    obtain ⟨hall, t, ht, hs⟩ := h
    exact ⟨fun t ht => hall t (hp.mem_iff.mpr ht), t, hp.mem_iff.mp ht, hs⟩
  | canceled => exact fun t ht => h t (hp.mem_iff.mpr ht)
  | running => trivial
  | other _ => trivial

/-- Validation does not look at the order. -/
theorem Reordered.valid (h : Reordered a b) (hv : ValidSnapshot a) :
    ValidSnapshot b where
  id := h.id ▸ hv.id
  workflowID := h.workflowID ▸ hv.workflowID
  status := h.status ▸ hv.status
  created := h.createdAt ▸ hv.created
  updated := by
    rw [← h.createdAt, ← h.updatedAt]
    exact hv.updated
  tasks hnil := hv.tasks (List.perm_nil.mp (hnil ▸ h.tasks))
  taskRuns t ht := by
    rw [← h.id, ← h.createdAt]
    exact hv.taskRuns t (h.tasks.mem_iff.mpr ht)
  taskIDs := (h.tasks.map _).nodup_iff.mp hv.taskIDs
  oneLease := (h.tasks.filterMap _).nodup_iff.mp hv.oneLease
  workers w hw := by
    rw [← h.createdAt]
    exact hv.workers w (h.workers.mem_iff.mpr hw)
  workerIDs := (h.workers.map _).nodup_iff.mp hv.workerIDs
  leasedWorkers w hw :=
    (h.workers.map _).mem_iff.mp (hv.leasedWorkers w ((h.tasks.filterMap _).mem_iff.mpr hw))
  aggregate := by
    rw [← h.status]
    exact aggregateStatus_perm h.tasks hv.aggregate

theorem Reordered.validate (h : Reordered a b) :
    a.validate = .ok () ↔ b.validate = .ok () := by
  rw [WorkflowRunSnapshot.validate_ok_iff, WorkflowRunSnapshot.validate_ok_iff]
  exact ⟨h.valid, h.symm.valid⟩

/-! ## Snapshots that fit the columns -/

/-- The strings and the counts of the snapshot are such that the columns can hold them. -/
structure Storable (snapshot : WorkflowRunSnapshot) : Prop where
  run : textValue snapshot.id = true ∧ textValue snapshot.workflowID = true
  tasks : ∀ t ∈ snapshot.tasks, (∀ s ∈ taskTexts t, textValue s = true) ∧ t.attemptCount < 2 ^ 31
  workers : ∀ w ∈ snapshot.workers, textValue w.workerID = true

theorem Reordered.storable (h : Reordered a b) (hs : Storable a) :
    Storable b where
  run := h.id ▸ h.workflowID ▸ hs.run
  tasks t ht := hs.tasks t (h.tasks.mem_iff.mpr ht)
  workers w hw := hs.workers w (h.workers.mem_iff.mpr hw)

theorem checkParameters_ok_iff (texts : List GoString) (integers : List Int) :
    checkParameters texts integers = .ok () ↔
      (∀ s ∈ texts, textValue s = true) ∧ ∀ n ∈ integers, -2 ^ 31 ≤ n ∧ n < 2 ^ 31 := by
  simp only [checkParameters, firstError_cons, firstError_nil, and_true, Bool.not_eq_false',
    List.all_eq_true, Bool.and_eq_true, decide_eq_true_eq]
  exact and_comm

/-! ## Runs restored from a snapshot that lacks no IDs -/

/-- The IDs are there, as `Snapshot` produces them. -/
def Filled (snapshot : WorkflowRunSnapshot) : Prop :=
  ∀ task ∈ snapshot.tasks, task.taskRunID ≠ [] ∧
    (0 < task.attemptCount → task.currentAttemptID ≠ [])

instance (snapshot : WorkflowRunSnapshot) : Decidable (Filled snapshot) :=
  inferInstanceAs (Decidable (∀ task ∈ snapshot.tasks, _ ∧ _))

section

variable {snapshot : WorkflowRunSnapshot} {d : WorkflowDefinition} {run : WorkflowRun}

theorem Filled.restored (h : Filled snapshot) {task : TaskRun} (ht : task ∈ snapshot.tasks) :
    task.restored snapshot.id = task := by
  obtain ⟨hrun, hattempt⟩ := h task ht
  unfold TaskRun.restored
  rw [if_neg hrun, if_neg fun hnone => hattempt hnone.2 hnone.1]

/-- Its snapshot is the one it was restored from, sorted. -/
theorem restored_reordered (hfilled : Filled snapshot)
    (h : restoreWorkflowRun snapshot d = .ok run) : Reordered run.snapshot snapshot := by
  obtain ⟨hv, -, hwid, -, -, rfl⟩ := restoreWorkflowRun_ok h
  have htasks : (snapshot.tasks.map fun t => (t.taskID, t.restored snapshot.id)).map Prod.snd =
      snapshot.tasks := by
    rw [List.map_map]
    conv_rhs => rw [← List.map_id snapshot.tasks]
    exact List.map_congr_left fun t ht => hfilled.restored ht
  have hworkers : (snapshot.workers.map fun w => (w.workerID, w)).map Prod.snd =
      snapshot.workers := by
    rw [List.map_map]
    exact List.map_id _
  refine ⟨rfl, hwid.symm, rfl, rfl, rfl, rfl, ?_, ?_⟩
  · refine (KeyMap.values_ofList_perm ?_).trans (.of_eq htasks)
    rw [List.map_map]
    exact hv.taskIDs
  · refine (KeyMap.values_ofList_perm ?_).trans (.of_eq hworkers)
    rw [List.map_map]
    exact hv.workerIDs

theorem restored_contains (h : restoreWorkflowRun snapshot d = .ok run) (k : TaskID) :
    run.tasks.contains k = true ↔ k ∈ d.tasks.map TaskDefinition.id := by
  obtain ⟨hv, hd, -, -, -, hrun⟩ := restoreWorkflowRun_ok h
  have hids := ((restoreWorkflowRun_ok_iff
    ((WorkflowRunSnapshot.validate_ok_iff _).mpr hv) hd).mp ⟨run, h⟩).2 k
  rw [← hids, hrun, restoredRun, KeyMap.contains_ofList, List.map_map]
  rfl

theorem restored_version (h : restoreWorkflowRun snapshot d = .ok run) (v : Nat) :
    restoreWorkflowRun { snapshot with version := v } d = .ok { run with version := v } := by
  obtain ⟨hv, hd, -, -, -, rfl⟩ := restoreWorkflowRun_ok h
  have hvalid := (WorkflowRunSnapshot.validate_ok_iff _).mpr hv
  obtain ⟨run', hrun'⟩ := (restoreWorkflowRun_ok_iff (validate_version hvalid v) hd).mpr
    ((restoreWorkflowRun_ok_iff hvalid hd).mp ⟨_, h⟩)
  obtain ⟨-, -, -, -, -, rfl⟩ := restoreWorkflowRun_ok hrun'
  exact hrun'

end

/-! ## Rows that a run is written to -/

def runRow (run : WorkflowRun) : RunRow :=
  ⟨run.definition.id, run.version, run.status, microseconds run.createdAt,
    microseconds run.updatedAt⟩

/-- The rows of the run are those of the aggregate. -/
structure Holds (db : Database) (run : WorkflowRun) : Prop where
  row : db.workflowRuns.get? run.id = some (runRow run)
  tasks : db.taskRunsOf run.id = run.tasks.map fun _ t => taskRow t
  workers : db.workersOf run.id = run.workers.map fun _ w => microseconds w.lastHeartbeatAt
  leases : ∀ k, (db.taskLeasesOf run.id).get? k =
    (run.tasks.get? k).bind fun t => t.lease.map leaseRow

theorem nullablePostgresTime_getD (t : Int) :
    (nullablePostgresTime t).getD 0 = microseconds t := by
  unfold nullablePostgresTime
  split
  · rename_i h
    rw [h]
    rfl
  · rfl

theorem nullablePostgresTime_ne_none {t : Int} (h : t ≠ 0) : nullablePostgresTime t ≠ none := by
  rw [nullablePostgresTime, if_neg h]
  nofun

theorem scanTask_taskRow {leases : KeyMap TaskID LeaseRow} {k : TaskID}
    (hk : t.taskID = k) (hlease : leases.get? k = t.lease.map leaseRow) :
    Database.scanTask leases k (taskRow t) = microTask t := by
  subst hk
  simp only [Database.scanTask, taskRow, microTask, hlease, nullablePostgresTime_getD,
    Option.map_map]
  rfl

/-- What `LoadRun` makes of the rows of a run. -/
theorem Holds.loadRun {db : Database} {run : WorkflowRun} (h : Holds db run)
    (hc : Coherent run) (hversion : 1 ≤ run.version) (hid : textValue run.id = true)
    (x : WorkflowRunSnapshot) :
    db.loadRun .live run.id = .ok (some x) ↔
      x = truncated run.snapshot ∧ (truncated run.snapshot).validate = .ok () := by
  have htasks : (db.taskRunsOf run.id).map (Database.scanTask (db.taskLeasesOf run.id)) =
      run.tasks.map fun _ t => microTask t := by
    rw [h.tasks]
    apply KeyMap.ext_get?
    intro k
    simp only [KeyMap.get?_map, Option.map_map]
    cases ht : run.tasks.get? k with
    | none => rfl
    | some t =>
      have hlease := h.leases k
      rw [ht, Option.bind_some] at hlease
      exact congrArg some (scanTask_taskRow (hc.tasks k t ht).task hlease)
  have hworkers : (db.workersOf run.id).map WorkerHeartbeat.mk =
      run.workers.map fun _ w => microWorker w := by
    rw [h.workers]
    apply KeyMap.ext_get?
    intro k
    simp only [KeyMap.get?_map, Option.map_map]
    cases hw : run.workers.get? k with
    | none => rfl
    | some w => exact congrArg some (by rw [← hc.workers k w hw]; rfl)
  have hmissing : ∀ k ∈ (db.taskLeasesOf run.id).keys,
      (run.tasks.map fun _ t => microTask t).contains k = true := by
    intro k hk
    have hsome := (KeyMap.mem_keys_iff _ k).mp hk
    rw [h.leases k] at hsome
    rw [KeyMap.contains_map, KeyMap.contains]
    cases ht : run.tasks.get? k with
    | none =>
      rw [ht] at hsome
      cases hsome
    | some t => rfl
  have hsnapshot : (⟨run.id, run.definition.id, run.version, run.status,
      microseconds run.createdAt, microseconds run.updatedAt,
      (run.tasks.map fun _ t => microTask t).values,
      (run.workers.map fun _ w => microWorker w).values⟩ : WorkflowRunSnapshot) =
        truncated run.snapshot := by
    rw [KeyMap.values_map, KeyMap.values_map]
    rfl
  unfold Database.loadRun
  simp only [h.row, htasks, hworkers, do_eq_ok, mapError_ok_iff]
  constructor
  · rintro ⟨_, -, _, -, _, -, _, -, _, hvalid, hx⟩
    cases hx
    exact ⟨hsnapshot, hsnapshot ▸ hvalid⟩
  · rintro ⟨rfl, hvalid⟩
    refine ⟨(), rfl, (), ?_, (), ?_, (), ?_, (), hsnapshot ▸ hvalid,
      congrArg (Except.ok ∘ some) hsnapshot⟩
    · exact (checkParameters_ok_iff _ _).mpr ⟨by simp [hid], by simp⟩
    · simp only [firstError_cons, firstError_nil, and_true, decide_eq_false_iff_not, not_lt]
      exact hversion
    · refine (checkAll_ok_iff _ _).mpr fun k hk => ?_
      simp only [hmissing k hk, firstError_cons, firstError_nil, Bool.not_true, and_self]

/-! ## Writing the children -/

section

variable {run : WorkflowRun}

/-- What the loops over the rows need to know of the run they write. -/
structure Writable (run : WorkflowRun) : Prop where
  coherent : Coherent run
  valid : ValidSnapshot run.snapshot
  storable : Storable run.snapshot

theorem Writable.taskID (h : Writable run) (k : TaskID) (t : TaskRun)
    (ht : run.tasks.get? k = some t) : t.taskID = k := (h.coherent.tasks k t ht).task

theorem Writable.get? (h : Writable run) (ht : t ∈ run.snapshot.tasks) :
    run.tasks.get? t.taskID = some t := by
  obtain ⟨k, hk⟩ := (KeyMap.mem_values_iff _ _).mp ht
  rw [h.taskID k t hk]
  exact hk

theorem Writable.taskRunID (h : Writable run) (ht : t ∈ run.snapshot.tasks) :
    t.taskRunID = taskRunIDFor run.id t.taskID :=
  (h.coherent.tasks _ t (h.get? ht)).taskRun

/-- A running or waiting task run has its attempt ID. -/
theorem Writable.attemptID (h : Writable run) (ht : t ∈ run.snapshot.tasks)
    (hcount : t.attemptCount ≠ 0) :
    t.currentAttemptID = attemptIDFor (taskRunIDFor run.id t.taskID) t.attemptCount := by
  rw [(h.coherent.tasks _ t (h.get? ht)).attempt, if_neg hcount]

theorem Writable.runText (h : Writable run) : textValue run.id = true := h.storable.run.1

theorem Writable.parameters (h : Writable run) (ht : t ∈ run.snapshot.tasks) :
    checkParameters (run.id :: taskTexts t) [t.attemptCount] = .ok () := by
  obtain ⟨htexts, hcount⟩ := h.storable.tasks t ht
  have hpositive := (h.valid.taskRuns t ht).attempts
  refine (checkParameters_ok_iff _ _).mpr ⟨List.forall_mem_cons.mpr ⟨h.runText, htexts⟩,
    List.forall_mem_singleton.mpr ⟨?_, hcount⟩⟩
  omega

/-- Every task run of a valid snapshot passes the constraints of its row. -/
theorem Writable.check (h : Writable run) (ht : t ∈ run.snapshot.tasks) :
    (taskRow t).check = .ok () := by
  have hv := h.valid.taskRuns t ht
  have hcount := hv.attempts
  have hpos : t.attemptCount ≠ 0 → 0 < t.attemptCount := by omega
  have hattempt : t.attemptCount ≠ 0 → t.currentAttemptID ≠ [] := by
    intro hne
    rw [h.attemptID ht hne]
    exact attemptIDFor_ne_nil _ _
  have hrun : t.taskRunID ≠ [] := by
    rw [h.taskRunID ht]
    exact taskRunIDFor_ne_nil _ _
  have hfinished : t.status.terminal = true → t.finishedAt ≠ 0 := by
    intro hterminal
    cases hs : t.status with
    | succeeded => exact (hv.completed (.inl hs)).2
    | failed => exact (hv.completed (.inr hs)).2
    | canceled => exact hv.canceled hs
    | _ =>
      rw [hs] at hterminal
      cases hterminal
  simp only [TaskRow.check, firstError_cons, firstError_nil, and_true,
    decide_eq_false_iff_not, Bool.not_eq_false', not_lt, Bool.and_eq_false_imp,
    decide_eq_true_eq, Bool.or_eq_false_iff, not_le]
  refine ⟨hrun, hv.status, hcount, fun hs => ?_, fun hs => ?_, fun hs => ?_⟩
  · obtain ⟨hne, hstarted⟩ := hv.running hs
    exact ⟨⟨hpos hne, hattempt hne⟩, nullablePostgresTime_ne_none hstarted⟩
  · obtain ⟨hne, -⟩ := hv.retryAttempt hs
    exact ⟨⟨hpos hne, hattempt hne⟩, nullablePostgresTime_ne_none (hv.retryDeadline hs)⟩
  · exact nullablePostgresTime_ne_none (hfinished hs)

/-- The updates find the rows of the tasks and replace what is in them. -/
theorem Writable.updateTaskRuns (h : Writable run) {rows : KeyMap TaskID TaskRow}
    (hrows : ∀ k, rows.contains k = true ↔ run.tasks.contains k = true)
    (hids : ∀ k row, rows.get? k = some row → row.taskRunID = taskRunIDFor run.id k) :
    run.snapshot.tasks.foldlM (updateTaskRun run.id) rows =
      .ok (run.tasks.map fun _ t => taskRow t) := by
  have hloop := foldlM_ok (f := updateTaskRun run.id)
    (g := fun rows t => rows.insert t.taskID (taskRow t))
    (I := fun rows l => (∀ t ∈ l, t ∈ run.snapshot.tasks ∧ rows.contains t.taskID = true) ∧
      ∀ k row, rows.get? k = some row → row.taskRunID = taskRunIDFor run.id k)
    (fun rows t rest hI => ?_) run.snapshot.tasks rows ⟨fun t ht => ⟨ht, ?_⟩, hids⟩
  · rw [hloop]
    refine congrArg Except.ok (KeyMap.ext_get? fun k => ?_)
    have hwrite := KeyMap.get?_foldl_values (fun t => some (taskRow t)) run.tasks h.taskID rows k
    refine hwrite.trans ?_
    rw [KeyMap.get?_map]
    cases ht : run.tasks.get? k with
    | some t => rfl
    | none =>
      have hnone : rows.contains k ≠ true := by
        rw [ne_eq, hrows k, KeyMap.contains, ht]
        simp
      simpa [KeyMap.contains] using hnone
  · obtain ⟨ht, hknown⟩ := hI.1 t List.mem_cons_self
    obtain ⟨row, hrow⟩ := Option.isSome_iff_exists.mp hknown
    have hid : row.taskRunID = t.taskRunID := by
      rw [hI.2 _ _ hrow, h.taskRunID ht]
    refine ⟨?_, fun t' ht' => ⟨(hI.1 t' (List.mem_cons_of_mem _ ht')).1, ?_⟩, fun k row' hget => ?_⟩
    · have hrow' : ({ taskRow t with taskRunID := row.taskRunID } : TaskRow) = taskRow t := by
        rw [hid]
        rfl
      simp only [updateTaskRun, h.parameters ht, hrow, if_pos hid, hrow', Except.mapError,
        Except.bind]
      rw [h.check ht]
      rfl
    · exact (KeyMap.contains_insert _ _ _ _).mpr
        (.inr (hI.1 t' (List.mem_cons_of_mem _ ht')).2)
    · rw [KeyMap.get?_insert] at hget
      split at hget
      · rename_i hk
        cases hget
        rw [hk]
        exact h.taskRunID ht
      · exact hI.2 k row' hget
  · rw [hrows, KeyMap.contains, h.get? ht]
    rfl

/-- The insertions of a new run write the rows of its tasks. -/
theorem Writable.insertTaskRuns (h : Writable run) {d : WorkflowDefinition}
    (hid : d.id = run.definition.id)
    (hd : ∀ k, run.tasks.contains k = true ↔ k ∈ d.tasks.map TaskDefinition.id) :
    run.snapshot.tasks.foldlM (insertTaskRun run.id d) ∅ =
      .ok (run.tasks.map fun _ t => taskRow t) := by
  have hloop := foldlM_ok (f := insertTaskRun run.id d)
    (g := fun rows t => rows.insert t.taskID (taskRow t))
    (I := fun rows l => (l.map TaskRun.taskID).Nodup ∧ (∀ t ∈ l, t ∈ run.snapshot.tasks) ∧
      ∀ k row, rows.get? k = some row →
        row.taskRunID = taskRunIDFor run.id k ∧ ∀ t ∈ l, t.taskID ≠ k)
    (fun rows t rest hI => ?_) run.snapshot.tasks ∅
    ⟨h.valid.taskIDs, fun _ ht => ht, fun _ _ hrow => absurd hrow nofun⟩
  · rw [hloop]
    refine congrArg Except.ok (KeyMap.ext_get? fun k => ?_)
    have hwrite := KeyMap.get?_foldl_values (fun t => some (taskRow t)) run.tasks h.taskID ∅ k
    refine hwrite.trans ?_
    rw [KeyMap.get?_map]
    cases run.tasks.get? k <;> rfl
  · obtain ⟨hnodup, hmem, hrows⟩ := hI
    obtain ⟨hnot, hrest⟩ := List.nodup_cons.mp hnodup
    have ht := hmem t List.mem_cons_self
    refine ⟨?_, hrest, fun t' ht' => hmem t' (List.mem_cons_of_mem _ ht'),
      fun k row hrow => ?_⟩
    · have hfirst : firstError [
          (rows.contains t.taskID, violation "task_runs_pkey"),
          (rows.values.any fun row => row.taskRunID = t.taskRunID,
            violation "task_runs_task_run_id_unique"),
          (!d.tasks.any fun defined => defined.id = t.taskID,
            violation "task_runs_task_definition_fk")] = .ok () := by
        simp only [firstError_cons, firstError_nil, and_true, List.any_eq_false,
          Bool.not_eq_false', List.any_eq_true, decide_eq_true_eq]
        refine ⟨?_, fun row hrow heq => ?_, ?_⟩
        · cases hget : rows.get? t.taskID with
          | none => rw [KeyMap.contains, hget]; rfl
          | some row => exact absurd rfl ((hrows _ _ hget).2 t List.mem_cons_self)
        · obtain ⟨k, hk⟩ := (KeyMap.mem_values_iff _ _).mp hrow
          rw [(hrows k row hk).1, h.taskRunID ht] at heq
          exact (hrows k row hk).2 t List.mem_cons_self (taskRunIDFor_injective heq).2.symm
        · have hdefined := (hd t.taskID).mp (KeyMap.contains_of_get? (h.get? ht))
          obtain ⟨defined, hdefined, hid⟩ := List.mem_map.mp hdefined
          exact ⟨defined, hdefined, hid⟩
      have hparameters : checkParameters (run.id :: d.id :: taskTexts t) [t.attemptCount] =
          .ok () := by
        obtain ⟨htexts, hcounts⟩ := (checkParameters_ok_iff _ _).mp (h.parameters ht)
        obtain ⟨hrun, htexts⟩ := List.forall_mem_cons.mp htexts
        exact (checkParameters_ok_iff _ _).mpr ⟨List.forall_mem_cons.mpr ⟨hrun,
          List.forall_mem_cons.mpr ⟨hid ▸ h.storable.run.2, htexts⟩⟩, hcounts⟩
      unfold insertTaskRun
      rw [hparameters, h.check ht, Except.bind, Except.bind, hfirst]
      rfl
    · rw [KeyMap.get?_insert] at hrow
      split at hrow
      · rename_i hk
        cases hrow
        subst hk
        exact ⟨h.taskRunID ht, fun t' ht' heq => hnot (heq ▸ List.mem_map.mpr ⟨t', ht', rfl⟩)⟩
      · exact ⟨(hrows k row hrow).1, fun t' ht' =>
          (hrows k row hrow).2 t' (List.mem_cons_of_mem _ ht')⟩

theorem Writable.insertWorkers (h : Writable run) :
    run.snapshot.workers.foldlM (insertWorker run.id) ∅ =
      .ok (run.workers.map fun _ w => microseconds w.lastHeartbeatAt) := by
  have hloop := foldlM_ok (f := insertWorker run.id)
    (g := fun rows w => rows.insert w.workerID (microseconds w.lastHeartbeatAt))
    (I := fun rows l => (l.map WorkerHeartbeat.workerID).Nodup ∧
      ∀ w ∈ l, w ∈ run.snapshot.workers ∧ rows.contains w.workerID = false)
    (fun rows w rest hI => ?_) run.snapshot.workers ∅ ⟨h.valid.workerIDs, fun w hw => ⟨hw, rfl⟩⟩
  · rw [hloop]
    refine congrArg Except.ok (KeyMap.ext_get? fun k => ?_)
    have hwrite := KeyMap.get?_foldl_values
      (fun w : WorkerHeartbeat => some (microseconds w.lastHeartbeatAt)) run.workers
      h.coherent.workers ∅ k
    refine hwrite.trans ?_
    rw [KeyMap.get?_map]
    cases run.workers.get? k <;> rfl
  · obtain ⟨hnot, hnodup⟩ := List.nodup_cons.mp hI.1
    obtain ⟨hw, hnew⟩ := hI.2 w List.mem_cons_self
    have hne : w.workerID ≠ [] := by
      intro hnil
      have hid := (h.valid.workers w hw).id
      rw [hnil] at hid
      cases hid
    refine ⟨?_, hnodup, fun w' hw' => ⟨(hI.2 w' (List.mem_cons_of_mem _ hw')).1, ?_⟩⟩
    · have hfirst : firstError [(rows.contains w.workerID, violation "workers_pkey"),
          (decide (w.workerID = []), violation "workers_id_not_empty")] = .ok () := by
        simp only [firstError_cons, firstError_nil, and_true, decide_eq_false_iff_not]
        exact ⟨hnew, hne⟩
      have hparameters : checkParameters [run.id, w.workerID] [] = .ok () :=
        (checkParameters_ok_iff _ _).mpr
          ⟨by simp [h.runText, h.storable.workers w hw], by simp⟩
      simp only [insertWorker, hparameters, Except.bind, hfirst]
      rfl
    · have hother : w'.workerID ≠ w.workerID := fun heq =>
        hnot (heq ▸ List.mem_map.mpr ⟨w', hw', rfl⟩)
      rw [KeyMap.contains, KeyMap.get?_insert_ne _ _ hother]
      exact (hI.2 w' (List.mem_cons_of_mem _ hw')).2

/-- The leases of two tasks differ in what their rows must not share. -/
theorem Writable.lease_apart (h : Writable run) {t' : TaskRun} {l l' : TaskLease}
    (ht : t ∈ run.snapshot.tasks) (ht' : t' ∈ run.snapshot.tasks) (hl : t.lease = some l)
    (hl' : t'.lease = some l') (hne : t.taskID ≠ t'.taskID) :
    l.attemptID ≠ l'.attemptID ∧ l.workerID ≠ l'.workerID := by
  have hattempt : ∀ {t : TaskRun} {l : TaskLease}, t ∈ run.snapshot.tasks → t.lease = some l →
      l.attemptID = attemptIDFor (taskRunIDFor run.id t.taskID) t.attemptCount := by
    intro t l ht hl
    have hlv := (h.valid.taskRuns t ht).lease l hl
    rw [hlv.leaseAttempt]
    exact h.attemptID ht ((h.valid.taskRuns t ht).running hlv.running).1
  refine ⟨fun heq => ?_, fun heq => ?_⟩
  · rw [hattempt ht hl, hattempt ht' hl'] at heq
    exact hne (taskRunIDFor_injective (attemptIDFor_injective heq).1).2
  · have hworker : ∀ {t : TaskRun} {l : TaskLease}, t.lease = some l →
        t.leasedTo = some l.workerID := by
      intro t l hl
      rw [TaskRun.leasedTo, hl]
      rfl
    have hw' := hworker hl'
    rw [← heq] at hw'
    exact hne (congrArg TaskRun.taskID (h.valid.holder_unique ht ht' (hworker hl) hw'))

/-- The lease of a valid task run refers to rows that are there. -/
theorem Writable.insertLease (h : Writable run) {rows : KeyMap TaskID LeaseRow}
    (ht : t ∈ run.snapshot.tasks) (hnew : rows.contains t.taskID = false)
    (hapart : ∀ row ∈ rows.values, ∀ l, t.lease = some l →
      row.attemptID ≠ l.attemptID ∧ row.workerID ≠ l.workerID) :
    insertLease run.id (run.tasks.map fun _ t => taskRow t)
      (run.workers.map fun _ w => microseconds w.lastHeartbeatAt) rows t =
        .ok (((t.lease.map leaseRow).map (rows.insert t.taskID)).getD rows) := by
  cases hl : t.lease with
  | none => simp only [Persistence.insertLease, hl, Option.map_none, Option.getD_none]
  | some l =>
    have hlv := (h.valid.taskRuns t ht).lease l hl
    have htask : (run.tasks.map fun _ t => taskRow t).get? t.taskID = some (taskRow t) := by
      rw [KeyMap.get?_map, h.get? ht]
      rfl
    have hleased : t.leasedTo = some l.workerID := by
      rw [TaskRun.leasedTo, hl]
      rfl
    obtain ⟨w, hw, hid⟩ := List.mem_map.mp
      (h.valid.leasedWorkers l.workerID (List.mem_filterMap.mpr ⟨t, ht, hleased⟩))
    have hworker : (run.workers.map fun _ w => microseconds w.lastHeartbeatAt).contains
        l.workerID = true := by
      obtain ⟨k, hk⟩ := (KeyMap.mem_values_iff _ _).mp hw
      rw [KeyMap.contains_map, ← hid, h.coherent.workers k w hk, KeyMap.contains, hk]
      rfl
    -- its strings are those of the task and of a worker
    have hparameters : checkParameters
        [run.id, t.taskID, l.taskRunID, l.workerID, l.attemptID] [] = .ok () := by
      have htexts := (h.storable.tasks t ht).1
      simp only [taskTexts, List.forall_mem_cons] at htexts
      obtain ⟨htask, hrun, -, -, hattempt, -⟩ := htexts
      refine (checkParameters_ok_iff _ _).mpr ⟨?_, by simp⟩
      rw [hlv.leaseTaskRun, ← hlv.taskRun, hlv.leaseAttempt, ← hid]
      simp [h.runText, htask, hrun, hattempt, h.storable.workers w hw]
    have hattempt : l.attemptID ≠ [] := by
      intro hnil
      have hid := hlv.attempt
      rw [hnil] at hid
      cases hid
    have hrow : ((run.tasks.map fun _ t => taskRow t).values.any fun row =>
        row.taskRunID = l.taskRunID) = true := by
      refine List.any_eq_true.mpr ⟨taskRow t, (KeyMap.mem_values_iff _ _).mpr ⟨_, htask⟩, ?_⟩
      exact decide_eq_true (hlv.taskRun.trans hlv.leaseTaskRun.symm)
    have hfree : ∀ p : LeaseRow → Bool, (∀ row ∈ rows.values, p row = false) →
        rows.values.any p = false := fun p hp => List.any_eq_false.mpr fun row hrow => by
      simp [hp row hrow]
    have hattempts := hfree (fun row => row.attemptID = l.attemptID) fun row hrow =>
      decide_eq_false (hapart row hrow l hl).1
    have hworkers := hfree (fun row => row.workerID = l.workerID) fun row hrow =>
      decide_eq_false (hapart row hrow l hl).2
    simp only [Persistence.insertLease, hl, hparameters, Except.bind, hnew, hattempts, hworkers,
      hrow, hworker, KeyMap.contains_of_get? htask, hattempt, firstError, Bool.not_true,
      Bool.false_eq_true, if_false, decide_false]
    rfl

/-- The rows of the leases come one by one, each free of those before it. -/
theorem Writable.insertLeases (h : Writable run) :
    ∃ leases, run.snapshot.tasks.foldlM
      (Persistence.insertLease run.id (run.tasks.map fun _ t => taskRow t)
        (run.workers.map fun _ w => microseconds w.lastHeartbeatAt)) ∅ = .ok leases ∧
      ∀ k, leases.get? k = (run.tasks.get? k).bind fun t => t.lease.map leaseRow := by
  have hloop := foldlM_ok
    (f := Persistence.insertLease run.id (run.tasks.map fun _ t => taskRow t)
      (run.workers.map fun _ w => microseconds w.lastHeartbeatAt))
    (g := fun rows t => ((t.lease.map leaseRow).map (rows.insert t.taskID)).getD rows)
    (I := fun rows l => (l.map TaskRun.taskID).Nodup ∧ (∀ t ∈ l, t ∈ run.snapshot.tasks) ∧
      ∀ k row, rows.get? k = some row → (∀ t ∈ l, t.taskID ≠ k) ∧
        ∃ t ∈ run.snapshot.tasks, t.taskID = k ∧ ∃ lease, t.lease = some lease ∧
          row = leaseRow lease)
    (fun rows t rest hI => ?_) run.snapshot.tasks ∅
    ⟨h.valid.taskIDs, fun _ ht => ht, fun _ _ hrow => absurd hrow nofun⟩
  · refine ⟨_, hloop, fun k => ?_⟩
    have hwrite := KeyMap.get?_foldl_values (fun t : TaskRun => t.lease.map leaseRow) run.tasks
      h.taskID ∅ k
    refine hwrite.trans ?_
    rw [KeyMap.get?_empty, Option.or_none]
  · obtain ⟨hnodup, hmem, hrows⟩ := hI
    obtain ⟨hnot, hnodup⟩ := List.nodup_cons.mp hnodup
    have ht := hmem t List.mem_cons_self
    refine ⟨h.insertLease ht ?_ fun row hrow l hl => ?_, hnodup,
      fun t' ht' => hmem t' (List.mem_cons_of_mem _ ht'), fun k row hget => ?_⟩
    · cases hget : rows.get? t.taskID with
      | none => simp only [KeyMap.contains, hget, Option.isSome_none]
      | some row => exact absurd rfl ((hrows _ row hget).1 t List.mem_cons_self)
    · obtain ⟨k, hget⟩ := (KeyMap.mem_values_iff _ _).mp hrow
      obtain ⟨hother, t', ht', rfl, l', hl', rfl⟩ := hrows k row hget
      exact h.lease_apart ht' ht hl' hl (Ne.symm (hother t List.mem_cons_self))
    · have hold : rows.get? k = some row → (∀ t ∈ rest, t.taskID ≠ k) ∧
          ∃ t ∈ run.snapshot.tasks, t.taskID = k ∧ ∃ lease, t.lease = some lease ∧
            row = leaseRow lease := fun hget =>
        ⟨fun t' ht' => (hrows k row hget).1 t' (List.mem_cons_of_mem _ ht'), (hrows k row hget).2⟩
      cases hl : t.lease with
      | none =>
        simp only [hl, Option.map_none, Option.getD_none] at hget
        exact hold hget
      | some l =>
        simp only [hl, Option.map_some, Option.getD_some, KeyMap.get?_insert] at hget
        split at hget
        · rename_i hk
          cases hget
          subst hk
          refine ⟨fun t' ht' heq => hnot (heq ▸ List.mem_map.mpr ⟨t', ht', rfl⟩), t, ht, rfl, l,
            hl, rfl⟩
        · exact hold hget

theorem Writable.insertChildren (h : Writable run) :
    ∃ leases, insertWorkersAndLeases run.snapshot (run.tasks.map fun _ t => taskRow t) =
        .ok (run.workers.map fun _ w => microseconds w.lastHeartbeatAt, leases) ∧
      ∀ k, leases.get? k = (run.tasks.get? k).bind fun t => t.lease.map leaseRow := by
  obtain ⟨leases, hleases, hget⟩ := h.insertLeases
  exact ⟨leases, do_eq_ok.mpr ⟨_, h.insertWorkers, do_eq_ok.mpr ⟨leases, hleases, rfl⟩⟩, hget⟩

end

/-! ## The calls of the database -/

section

variable {db : Database} {snapshot : WorkflowRunSnapshot} {run run₀ : WorkflowRun}

theorem loadWorkflow_ok_iff {id : WorkflowID} {found : Option WorkflowDefinition} :
    db.loadWorkflow id = .ok found ↔ textValue id = true ∧ db.definitions.get? id = found ∧
      ∀ d, found = some d → d.validate = .ok () := by
  unfold Database.loadWorkflow
  rw [bind_unit_ok_iff, mapError_ok_iff, checkParameters_ok_iff]
  refine and_congr (by simp) ?_
  cases db.definitions.get? id with
  | none =>
    constructor
    · intro h
      cases h
      simp
    · rintro ⟨rfl, -⟩
      rfl
  | some d =>
    simp only [map_eq_ok, mapError_ok_iff]
    constructor
    · rintro ⟨_, hvalid, rfl⟩
      exact ⟨rfl, fun _ heq => Option.some.inj heq ▸ hvalid⟩
    · rintro ⟨rfl, hvalid⟩
      exact ⟨(), hvalid d rfl, rfl⟩

theorem restoreRun_ok_iff : db.restoreRun snapshot = .ok run ↔
    textValue snapshot.workflowID = true ∧ ∃ d,
      db.definitions.get? snapshot.workflowID = some d ∧
        restoreWorkflowRun snapshot d = .ok run := by
  simp only [Database.restoreRun, do_eq_ok, mapError_ok_iff, required_ok_iff, loadWorkflow_ok_iff]
  constructor
  · rintro ⟨_, ⟨htext, hget, -⟩, d, rfl, hrestore⟩
    exact ⟨htext, d, hget, hrestore⟩
  · rintro ⟨htext, d, hget, hrestore⟩
    refine ⟨some d, ⟨htext, hget, fun _ heq => ?_⟩, d, rfl, hrestore⟩
    exact Option.some.inj heq ▸ (restoreWorkflowRun_ok hrestore).2.1

/-- What the statements have let through fits the columns. -/
theorem storable_of_written {tasks : KeyMap TaskID TaskRow}
    {children : KeyMap WorkerID Int × KeyMap TaskID LeaseRow}
    (hrun : textValue snapshot.id = true ∧ textValue snapshot.workflowID = true)
    (htasks : ∀ t ∈ snapshot.tasks, ∃ texts,
      checkParameters (texts ++ taskTexts t) [t.attemptCount] = .ok ())
    (hchildren : insertWorkersAndLeases snapshot tasks = .ok children) : Storable snapshot := by
  refine ⟨hrun, fun t ht => ?_, fun w hw => ?_⟩
  · obtain ⟨texts, hpassed⟩ := htasks t ht
    obtain ⟨htexts, hcount⟩ := (checkParameters_ok_iff _ _).mp hpassed
    exact ⟨fun s hs => htexts s (List.mem_append_right _ hs),
      (hcount _ List.mem_cons_self).2⟩
  · obtain ⟨workers, hworkers, -⟩ := do_eq_ok.mp hchildren
    obtain ⟨rows, rows', hpassed⟩ := foldlM_passed hworkers w hw
    obtain ⟨_, hchecked, -⟩ := map_eq_ok.mp hpassed
    obtain ⟨hparameters, -⟩ := bind_unit_ok_iff.mp (mapError_ok_iff.mp hchecked)
    exact ((checkParameters_ok_iff _ _).mp hparameters).1 _ (by simp)

/-- All that `SaveRun` does, once it returns. -/
theorem saveRun_ok_iff (hvalid : snapshot.validate = .ok ()) :
    db.saveRun .live snapshot = .ok result ↔
      (snapshot.version ≠ 0 ∧ snapshot.version < Database.maxInt64) ∧
      ∃ run, db.restoreRun snapshot = .ok run ∧
      ∃ row, updateWorkflowRun db run.snapshot = .ok row ∧
      ∃ tasks, run.snapshot.tasks.foldlM (updateTaskRun run.id) (db.taskRunsOf run.id) =
        .ok tasks ∧
      ∃ children, insertWorkersAndLeases run.snapshot tasks = .ok children ∧
        (db.commit run.id row tasks children.1 children.2,
          { run.snapshot with version := row.version }) = result := by
  rw [Database.saveRun, do_unit_eq_ok, do_unit_eq_ok, do_unit_eq_ok]
  simp only [contextError, checkSnapshot_ok_iff, hvalid, true_and, firstError_cons,
    firstError_nil, and_true, Bool.or_eq_false_iff, decide_eq_false_iff_not, not_le, do_eq_ok,
    pure, Except.pure, Except.ok.injEq]
  rfl

theorem updateWorkflowRun_ok_iff (hdb : Holds db run₀) (hid : snapshot.id = run₀.id)
    (hstatus : snapshot.status.valid = true) :
    updateWorkflowRun db snapshot = .ok row ↔
      (textValue snapshot.id = true ∧ textValue snapshot.workflowID = true) ∧
      run₀.definition.id = snapshot.workflowID ∧ run₀.version = snapshot.version ∧
      microseconds run₀.createdAt ≤ microseconds snapshot.updatedAt ∧
      row = ⟨run₀.definition.id, run₀.version + 1, snapshot.status, microseconds run₀.createdAt,
        microseconds snapshot.updatedAt⟩ := by
  unfold updateWorkflowRun
  rw [bind_unit_ok_iff, mapError_ok_iff, checkParameters_ok_iff]
  refine and_congr (by simp) ?_
  rw [hid, hdb.row]
  dsimp only
  by_cases hmatch : (runRow run₀).workflowID = snapshot.workflowID ∧
      (runRow run₀).version = snapshot.version
  · rw [if_pos hmatch]
    have hcheck : ∀ row : RunRow, row.status.valid = true → 1 ≤ row.version →
        (row.check = .ok () ↔ row.createdAt ≤ row.updatedAt) := by
      intro row hvalid hpositive
      simp only [RunRow.check, firstError_cons, firstError_nil, and_true,
        decide_eq_false_iff_not, not_lt, hvalid, hpositive, Bool.not_true, true_and]
    have hpositive := Nat.le_add_left 1 (runRow run₀).version
    simp only [map_eq_ok, mapError_ok_iff]
    constructor
    · rintro ⟨_, hok, rfl⟩
      exact ⟨hmatch.1, hmatch.2, (hcheck _ hstatus hpositive).mp hok, rfl⟩
    · rintro ⟨-, -, hle, rfl⟩
      exact ⟨(), (hcheck _ hstatus hpositive).mpr hle, rfl⟩
  · rw [if_neg hmatch]
    constructor
    · intro h
      cases h
    · rintro ⟨hworkflow, hversion, -⟩
      exact absurd ⟨hworkflow, hversion⟩ hmatch

/-- The children of a run with the tasks of the stored one are written without error. -/
theorem Writable.children (h : Writable run) (hdb : Holds db run₀) (hc₀ : Coherent run₀)
    (hid : run.id = run₀.id)
    (hkeys : ∀ k, run₀.tasks.contains k = true ↔ run.tasks.contains k = true) :
    ∃ leases, run.snapshot.tasks.foldlM (updateTaskRun run.id) (db.taskRunsOf run.id) =
        .ok (run.tasks.map fun _ t => taskRow t) ∧
      insertWorkersAndLeases run.snapshot (run.tasks.map fun _ t => taskRow t) =
        .ok (run.workers.map fun _ w => microseconds w.lastHeartbeatAt, leases) ∧
      ∀ k, leases.get? k = (run.tasks.get? k).bind fun t => t.lease.map leaseRow := by
  obtain ⟨leases, hchildren, hget⟩ := h.insertChildren
  refine ⟨leases, h.updateTaskRuns (fun k => ?_) fun k row hrow => ?_, hchildren, hget⟩
  · rw [hid, hdb.tasks, KeyMap.contains_map]
    exact hkeys k
  · rw [hid, hdb.tasks, KeyMap.get?_map] at hrow
    obtain ⟨t, ht, rfl⟩ := Option.map_eq_some_iff.mp hrow
    rw [hid]
    exact (hc₀.tasks k t ht).taskRun

/-- What is committed is what is read back. -/
theorem holds_commit (run : WorkflowRun) {leases : KeyMap TaskID LeaseRow}
    (hrow : row = runRow run)
    (hleases : ∀ k, leases.get? k = (run.tasks.get? k).bind fun t => t.lease.map leaseRow) :
    Holds (db.commit run.id row (run.tasks.map fun _ t => taskRow t)
      (run.workers.map fun _ w => microseconds w.lastHeartbeatAt) leases) run := by
  have hget : ∀ {V : Type} (m : KeyMap RunID (KeyMap GoString V)) (v : KeyMap GoString V),
      ((m.insert run.id v).get? run.id).getD ∅ = v := by
    intro V m v
    rw [KeyMap.get?_insert_self]
    rfl
  refine ⟨?_, hget _ _, hget _ _, fun k => ?_⟩
  · rw [← hrow]
    exact KeyMap.get?_insert_self _ _ _
  · rw [← hleases k]
    exact congrArg (KeyMap.get? · k) (hget _ _)

end

/-! ## The stores side by side -/

/-- Both stores hold the run, and the same definitions. -/
structure Mirrors (file : FileStore) (db : Database) (stored : WorkflowRunSnapshot) : Prop where
  definitions : db.definitions = file.workflows
  held : file.runs.get? stored.id = some stored
  version : 1 ≤ stored.version ∧ stored.version < Database.maxInt64
  rows : ∃ d run, file.workflows.get? stored.workflowID = some d ∧
    restoreWorkflowRun stored d = .ok run ∧ Holds db run

/-- The workflow and the creation time of a run, up to the microsecond. -/
def KeepsIdentity (stored snapshot : WorkflowRunSnapshot) : Prop :=
  snapshot.workflowID = stored.workflowID ∧
    microseconds snapshot.createdAt = microseconds stored.createdAt

/-- The stores accept the same saves, and read back the same aggregate of the same run. -/
structure Agree (file : FileStore) (db : Database) (stored snapshot : WorkflowRunSnapshot) :
    Prop where
  accept : (∃ c, file.saveRun .live .live snapshot = .ok (some c)) ↔
    ∃ result, db.saveRun .live snapshot = .ok result
  load : ∀ c result, file.saveRun .live .live snapshot = .ok (some c) →
    db.saveRun .live snapshot = .ok result →
    ∃ fromFile fromDatabase, c.next.runs.get? snapshot.id = some fromFile ∧
      result.1.loadRun .live snapshot.id = .ok (some fromDatabase) ∧
      SameAggregate fromFile fromDatabase ∧ KeepsIdentity stored fromFile

section

variable {file : FileStore} {stored snapshot : WorkflowRunSnapshot}

theorem fileSave_ok_iff (hheld : file.runs.get? snapshot.id = some stored)
    (hvalid : snapshot.validate = .ok ()) :
    (∃ c, file.saveRun .live .live snapshot = .ok (some c)) ↔
      snapshot.version = stored.version ∧ file.validateRunDefinition snapshot = .ok () := by
  unfold FileStore.saveRun
  simp only [bind_unit_ok_iff, checkSnapshot_ok_iff, hvalid, hheld, firstError_cons,
    firstError_nil, and_true, decide_eq_false_iff_not, ne_eq, not_not, contextError, true_and,
    exists_and_left, Except.ok.injEq, Option.some.injEq, exists_eq']

theorem fileSave_next (h : file.saveRun .live .live snapshot = .ok (some c)) :
    c.next = { file with
      runs := file.runs.insert snapshot.id { snapshot with version := snapshot.version + 1 } } := by
  obtain ⟨-, h⟩ := bind_unit_ok_iff.mp h
  obtain ⟨-, h⟩ := bind_unit_ok_iff.mp h
  split at h
  · cases h
  · obtain ⟨-, h⟩ := bind_unit_ok_iff.mp h
    obtain ⟨-, h⟩ := bind_unit_ok_iff.mp h
    obtain ⟨-, h⟩ := bind_unit_ok_iff.mp h
    cases h
    rfl

theorem fileSave_loads (h : file.saveRun .live .live snapshot = .ok (some c)) :
    c.next.runs.get? snapshot.id = some { snapshot with version := snapshot.version + 1 } := by
  rw [fileSave_next h]
  exact KeyMap.get?_insert_self _ _ _

theorem fileCreate_next (h : file.createRun .live .live snapshot = .ok (some c)) :
    c.next = { file with runs := file.runs.insert snapshot.id { snapshot with version := 1 } } := by
  obtain ⟨-, h⟩ := bind_unit_ok_iff.mp h
  obtain ⟨-, h⟩ := bind_unit_ok_iff.mp h
  obtain ⟨-, h⟩ := bind_unit_ok_iff.mp h
  obtain ⟨-, h⟩ := bind_unit_ok_iff.mp h
  obtain ⟨-, h⟩ := bind_unit_ok_iff.mp h
  cases h
  rfl

/-- The definition check of the file store is the restoring of the database. -/
theorem validateRunDefinition_ok_iff :
    file.validateRunDefinition snapshot = .ok () ↔ ∃ d run,
      file.workflows.get? snapshot.workflowID = some d ∧
        restoreWorkflowRun snapshot d = .ok run := by
  unfold FileStore.validateRunDefinition
  cases hd : file.workflows.get? snapshot.workflowID with
  | none => simp
  | some d => cases hr : restoreWorkflowRun snapshot d <;> simp [hr]

end

theorem microTask_idem (t : TaskRun) : microTask (microTask t) = microTask t := by
  simp only [microTask, microseconds_idem, Option.map_map]
  cases t.lease with
  | none => rfl
  | some l => simp only [Option.map_some, Function.comp_apply, microseconds_idem]

theorem truncated_idem (s : WorkflowRunSnapshot) : truncated (truncated s) = truncated s := by
  simp only [truncated, microseconds_idem, List.map_map]
  have htasks : microTask ∘ microTask = microTask := funext microTask_idem
  have hworkers : microWorker ∘ microWorker = microWorker := by
    funext w
    simp only [Function.comp_apply, microWorker, microseconds_idem]
  rw [htasks, hworkers]

section

variable {file : FileStore} {db : Database} {stored snapshot : WorkflowRunSnapshot}

theorem restored_writable {d : WorkflowDefinition} {run : WorkflowRun}
    (hfilled : Filled snapshot) (hstorable : Storable snapshot)
    (h : restoreWorkflowRun snapshot d = .ok run) : Writable run := by
  have hre := restored_reordered hfilled h
  exact ⟨restoreWorkflowRun_coherent h, hre.symm.valid (restoreWorkflowRun_ok h).1,
    hre.symm.storable hstorable⟩

/-- The parent row as a save leaves it: the creation time is that of the stored run. -/
def savedRow (stored snapshot : WorkflowRunSnapshot) : RunRow :=
  ⟨stored.workflowID, stored.version + 1, snapshot.status, microseconds stored.createdAt,
    microseconds snapshot.updatedAt⟩

namespace Mirrors

/-- The conditional update takes place if the version and the workflow are those of the
stored run, which was created before the update. -/
theorem updateWorkflowRun (h : Mirrors file db stored) {snapshot : WorkflowRunSnapshot}
    (hid : snapshot.id = stored.id) (hstatus : snapshot.status.valid = true) :
    updateWorkflowRun db snapshot = .ok row ↔
      (textValue snapshot.id = true ∧ textValue snapshot.workflowID = true) ∧
      snapshot.workflowID = stored.workflowID ∧ snapshot.version = stored.version ∧
      microseconds stored.createdAt ≤ microseconds snapshot.updatedAt ∧
      row = savedRow stored snapshot := by
  obtain ⟨d₀, run₀, -, hrestore, hdb⟩ := h.rows
  obtain ⟨-, -, hworkflow, -, -, rfl⟩ := restoreWorkflowRun_ok hrestore
  have hwid : (restoredRun stored d₀).definition.id = stored.workflowID := hworkflow.symm
  rw [updateWorkflowRun_ok_iff hdb hid hstatus, hwid, eq_comm (a := stored.workflowID)]
  exact and_congr_right fun _ => and_congr_right fun _ => and_congr_left' eq_comm

theorem children (h : Mirrors file db stored) {d : WorkflowDefinition} {run : WorkflowRun}
    (hid : snapshot.id = stored.id) (hfilled : Filled snapshot) (hstorable : Storable snapshot)
    (hd : file.workflows.get? snapshot.workflowID = some d)
    (hrestore : restoreWorkflowRun snapshot d = .ok run)
    (hsame : snapshot.workflowID = stored.workflowID) :
    ∃ leases, run.snapshot.tasks.foldlM (updateTaskRun run.id) (db.taskRunsOf run.id) =
        .ok (run.tasks.map fun _ t => taskRow t) ∧
      insertWorkersAndLeases run.snapshot (run.tasks.map fun _ t => taskRow t) =
        .ok (run.workers.map fun _ w => microseconds w.lastHeartbeatAt, leases) ∧
      ∀ k, leases.get? k = (run.tasks.get? k).bind fun t => t.lease.map leaseRow := by
  obtain ⟨d₀, run₀, hd₀, hrestore₀, hdb⟩ := h.rows
  have hid₀ : run₀.id = stored.id := by
    obtain ⟨-, -, -, -, -, rfl⟩ := restoreWorkflowRun_ok hrestore₀
    rfl
  -- both runs have the tasks of one definition
  rw [hsame, hd₀] at hd
  cases hd
  refine (restored_writable hfilled hstorable hrestore).children hdb
    (restoreWorkflowRun_coherent hrestore₀)
    (((restored_reordered hfilled hrestore).id.trans hid).trans hid₀.symm) fun k => ?_
  rw [restored_contains hrestore₀, restored_contains hrestore]

/-- What the database accepts, and what it commits then. -/
theorem saveRun_ok_iff (h : Mirrors file db stored) (hid : snapshot.id = stored.id)
    (hvalid : snapshot.validate = .ok ()) (hfilled : Filled snapshot) :
    db.saveRun .live snapshot = .ok result ↔ Storable snapshot ∧
      snapshot.version = stored.version ∧ snapshot.workflowID = stored.workflowID ∧
      microseconds stored.createdAt ≤ microseconds snapshot.updatedAt ∧
      ∃ d run leases, file.workflows.get? snapshot.workflowID = some d ∧
        restoreWorkflowRun snapshot d = .ok run ∧
        (∀ k, leases.get? k = (run.tasks.get? k).bind fun t => t.lease.map leaseRow) ∧
        (db.commit run.id (savedRow stored snapshot) (run.tasks.map fun _ t => taskRow t)
          (run.workers.map fun _ w => microseconds w.lastHeartbeatAt) leases,
          { run.snapshot with version := stored.version + 1 }) = result := by
  rw [Persistence.saveRun_ok_iff hvalid]
  simp only [restoreRun_ok_iff, h.definitions]
  have hupdate : ∀ {d run row}, restoreWorkflowRun snapshot d = .ok run →
      (Persistence.updateWorkflowRun db run.snapshot = .ok row ↔
        (textValue snapshot.id = true ∧ textValue snapshot.workflowID = true) ∧
        snapshot.workflowID = stored.workflowID ∧ snapshot.version = stored.version ∧
        microseconds stored.createdAt ≤ microseconds snapshot.updatedAt ∧
        row = savedRow stored snapshot) := by
    intro d run row hrestore
    have hre := restored_reordered hfilled hrestore
    have hv := hre.symm.valid (restoreWorkflowRun_ok hrestore).1
    rw [h.updateWorkflowRun (hre.id.trans hid) hv.status, hre.id, hre.workflowID, hre.version,
      hre.updatedAt]
    simp only [savedRow, hre.status, hre.updatedAt]
  constructor
  · rintro ⟨-, run, ⟨-, d, hd, hrestore⟩, row, hrow, tasks, htasks, children, hchildren, rfl⟩
    obtain ⟨htexts, hsame, hversion, hle, rfl⟩ := (hupdate hrestore).mp hrow
    have hre := restored_reordered hfilled hrestore
    have hstorable : Storable snapshot := by
      refine hre.storable (storable_of_written ?_ (fun t ht => ?_) hchildren)
      · rw [hre.id, hre.workflowID]
        exact htexts
      · obtain ⟨rows, rows', hpassed⟩ := foldlM_passed htasks t ht
        exact ⟨[run.id], mapError_ok_iff.mp (bind_unit_ok_iff.mp hpassed).1⟩
    obtain ⟨leases, htasks', hchildren', hleases⟩ :=
      h.children hid hfilled hstorable hd hrestore hsame
    rw [htasks'] at htasks
    cases htasks
    rw [hchildren'] at hchildren
    cases hchildren
    exact ⟨hstorable, hversion, hsame, hle, d, run, leases, hd, hrestore, hleases, rfl⟩
  · rintro ⟨hstorable, hversion, hsame, hle, d, run, leases, hd, hrestore, hleases, rfl⟩
    obtain ⟨leases', htasks, hchildren, hleases'⟩ :=
      h.children hid hfilled hstorable hd hrestore hsame
    have heq : leases' = leases := KeyMap.ext_get? fun k => (hleases' k).trans (hleases k).symm
    have hrange := h.version
    exact ⟨⟨by omega, by omega⟩, run, ⟨hstorable.run.2, d, hd, hrestore⟩, _,
      (hupdate hrestore).mpr ⟨hstorable.run, hsame, hversion, hle, rfl⟩, _, htasks, _, hchildren,
      heq ▸ rfl⟩

/-- The rows after a save are those of the snapshot, but for the creation time. -/
theorem saved (h : Mirrors file db stored) (hid : snapshot.id = stored.id)
    (hvalid : snapshot.validate = .ok ()) (hfilled : Filled snapshot)
    (hok : db.saveRun .live snapshot = .ok result) :
    result.1.definitions = db.definitions ∧ Storable snapshot ∧ ∃ d run,
      file.workflows.get? snapshot.workflowID = some d ∧
      restoreWorkflowRun snapshot d = .ok run ∧
      Holds result.1
        { run with version := snapshot.version + 1, createdAt := stored.createdAt } := by
  obtain ⟨hstorable, hversion, hsame, -, d, run, leases, hd, hrestore, hleases, rfl⟩ :=
    (h.saveRun_ok_iff hid hvalid hfilled).mp hok
  refine ⟨rfl, hstorable, d, run, hd, hrestore, ?_⟩
  have hre := restored_reordered hfilled hrestore
  refine holds_commit
    { run with version := snapshot.version + 1, createdAt := stored.createdAt } ?_ hleases
  have hwid : run.definition.id = stored.workflowID := hre.workflowID.trans hsame
  have hstatus : run.status = snapshot.status := hre.status
  have hupdated : run.updatedAt = snapshot.updatedAt := hre.updatedAt
  simp only [runRow, savedRow, hwid, hstatus, hupdated, hversion]

/-- What is read back after a save that keeps the identity of the run. -/
theorem loads (h : Mirrors file db stored) (hid : snapshot.id = stored.id)
    (hvalid : snapshot.validate = .ok ()) (hfilled : Filled snapshot)
    (hcreated : microseconds snapshot.createdAt = microseconds stored.createdAt)
    (hok : db.saveRun .live snapshot = .ok result) :
    ∃ loaded, Reordered loaded (truncated { snapshot with version := snapshot.version + 1 }) ∧
      ∀ x, result.1.loadRun .live snapshot.id = .ok (some x) ↔
        x = loaded ∧ loaded.validate = .ok () := by
  obtain ⟨-, hstorable, d, run, -, hrestore, hholds⟩ := h.saved hid hvalid hfilled hok
  have hre := restored_reordered hfilled hrestore
  have hcoherent := restoreWorkflowRun_coherent hrestore
  have hc : Coherent
      { run with version := snapshot.version + 1, createdAt := stored.createdAt } :=
    ⟨hcoherent.tasks, hcoherent.workers, hcoherent.definition⟩
  have hid' : run.id = snapshot.id := hre.id
  refine ⟨truncated (WorkflowRun.snapshot
      { run with version := snapshot.version + 1, createdAt := stored.createdAt }),
    ⟨hre.id, hre.workflowID, rfl, hre.status, hcreated.symm,
      congrArg microseconds hre.updatedAt, hre.tasks.map _, hre.workers.map _⟩, fun x => ?_⟩
  rw [← hid']
  exact hholds.loadRun hc (Nat.le_add_left 1 _) (hid' ▸ hstorable.run.1) x

/-- A save that both stores accept leaves them with the same run, if it keeps the
creation time. -/
theorem next (h : Mirrors file db stored) (hid : snapshot.id = stored.id)
    (hvalid : snapshot.validate = .ok ()) (hfilled : Filled snapshot)
    (hcreated : microseconds snapshot.createdAt = microseconds stored.createdAt)
    (hversion : snapshot.version + 1 < Database.maxInt64)
    (hc : file.saveRun .live .live snapshot = .ok (some c))
    (hok : db.saveRun .live snapshot = .ok result) :
    Mirrors c.next result.1 { snapshot with version := snapshot.version + 1 } := by
  obtain ⟨hdefs, -, d, run, hd, hrestore, hholds⟩ := h.saved hid hvalid hfilled hok
  have hcreated' : microseconds run.createdAt = microseconds stored.createdAt := by
    rw [← hcreated, ← (restored_reordered hfilled hrestore).createdAt]
    rfl
  refine ⟨?_, fileSave_loads hc, ⟨Nat.le_add_left 1 _, hversion⟩,
    d, { run with version := snapshot.version + 1 }, ?_, restored_version hrestore _, ?_⟩
  · rw [fileSave_next hc, hdefs, h.definitions]
  · rw [fileSave_next hc]
    exact hd
  · refine ⟨hholds.row.trans ?_, hholds.tasks, hholds.workers, hholds.leases⟩
    simp only [runRow, hcreated']

end Mirrors

/-- Stores with the same definitions hold the same run once both have created it. -/
theorem createRun_mirrors (hdefs : db.definitions = file.workflows)
    (hnone : db.taskRunsOf snapshot.id = ∅) (hfilled : Filled snapshot)
    (hc : file.createRun .live .live snapshot = .ok (some c))
    (hok : db.createRun .live snapshot = .ok result) :
    Mirrors c.next result.1 { snapshot with version := 1 } := by
  rw [Database.createRun, do_unit_eq_ok, do_unit_eq_ok, do_unit_eq_ok] at hok
  simp only [do_eq_ok, restoreRun_ok_iff, hdefs, pure, Except.pure, Except.ok.injEq] at hok
  obtain ⟨-, -, -, run, ⟨-, d, hd, hrestore⟩, _, hrow, _, -, _, -, tasks, htasks, children,
    hchildren, rfl⟩ := hok
  have hre := restored_reordered hfilled hrestore
  have hid : run.id = snapshot.id := hre.id
  have hstorable : Storable run.snapshot := by
    have htexts := (checkParameters_ok_iff _ _).mp (mapError_ok_iff.mp hrow)
    have hcreated := storable_of_written ⟨htexts.1 _ (by simp), htexts.1 _ (by simp)⟩
      (fun t ht => ?_) hchildren
    · exact ⟨hcreated.run, hcreated.tasks, hcreated.workers⟩
    · obtain ⟨rows, rows', hpassed⟩ := foldlM_passed htasks t ht
      obtain ⟨_, hchecked, -⟩ := map_eq_ok.mp hpassed
      exact ⟨[run.id, run.definition.id],
        (bind_unit_ok_iff.mp (mapError_ok_iff.mp hchecked)).1⟩
  have hw := restored_writable hfilled (hre.storable hstorable) hrestore
  have hkeys : ∀ k, run.tasks.contains k = true ↔
      k ∈ run.definition.tasks.map TaskDefinition.id := by
    intro k
    rw [restored_contains hrestore]
    obtain ⟨-, -, -, -, -, rfl⟩ := restoreWorkflowRun_ok hrestore
    rw [restoredRun, cloneDefinition_ids]
  obtain ⟨leases, hchildren', hleases⟩ := hw.insertChildren
  have htasks' := hw.insertTaskRuns rfl hkeys
  rw [← hnone, ← hid] at htasks'
  cases htasks'.symm.trans htasks
  cases hchildren'.symm.trans hchildren
  refine ⟨?_, ?_, ⟨le_rfl, show 1 < Database.maxInt64 by decide⟩, d, { run with version := 1 }, ?_,
    restored_version hrestore 1, holds_commit { run with version := 1 } rfl hleases⟩
  · rw [fileCreate_next hc]
    exact hdefs
  · rw [fileCreate_next hc]
    exact KeyMap.get?_insert_self _ _ _
  · rw [fileCreate_next hc]
    exact hd

theorem microseconds_mono {a b : Int} (h : a ≤ b) : microseconds a ≤ microseconds b := by
  unfold microseconds
  omega

theorem truncated_validate_version (snapshot : WorkflowRunSnapshot) (v : Nat) :
    (truncated { snapshot with version := v }).validate = .ok () ↔
      (truncated snapshot).validate = .ok () :=
  ⟨fun h => validate_version h snapshot.version, fun h => validate_version h v⟩

/-- What the database accepts the file store accepts. -/
theorem Mirrors.accepted (h : Mirrors file db stored) (hid : snapshot.id = stored.id)
    (hvalid : snapshot.validate = .ok ()) (hfilled : Filled snapshot)
    (hok : db.saveRun .live snapshot = .ok result) :
    ∃ c, file.saveRun .live .live snapshot = .ok (some c) := by
  have hheld : file.runs.get? snapshot.id = some stored := hid ▸ h.held
  obtain ⟨-, hversion, -, -, d, run, -, hd, hrestore, -⟩ :=
    (h.saveRun_ok_iff hid hvalid hfilled).mp hok
  exact (fileSave_ok_iff hheld hvalid).mpr
    ⟨hversion, validateRunDefinition_ok_iff.mpr ⟨d, run, hd, hrestore⟩⟩

/-- The stores agree about a snapshot with the identity of the run that fits the columns,
whatever its version and its tasks are. -/
theorem Mirrors.agree (h : Mirrors file db stored) (hid : snapshot.id = stored.id)
    (hvalid : snapshot.validate = .ok ()) (hfilled : Filled snapshot)
    (hkeeps : KeepsIdentity stored snapshot) (htruncated : (truncated snapshot).validate = .ok ())
    (hstorable : Storable snapshot) : Agree file db stored snapshot := by
  have hheld : file.runs.get? snapshot.id = some stored := hid ▸ h.held
  have hfile := fileSave_ok_iff hheld hvalid
  refine ⟨⟨fun haccept => ?_, ?_⟩, fun c result hc hresult => ?_⟩
  · obtain ⟨hversion, hdef⟩ := hfile.mp haccept
    obtain ⟨d, run, hd, hrestore⟩ := validateRunDefinition_ok_iff.mp hdef
    obtain ⟨leases, -, -, hleases⟩ := h.children hid hfilled hstorable hd hrestore hkeeps.1
    have hordered := ((WorkflowRunSnapshot.validate_ok_iff _).mp hvalid).updated.2
    exact ⟨_, (h.saveRun_ok_iff hid hvalid hfilled).mpr ⟨hstorable, hversion, hkeeps.1,
      hkeeps.2 ▸ microseconds_mono hordered, d, run, leases, hd, hrestore, hleases, rfl⟩⟩
  · rintro ⟨result, hresult⟩
    exact h.accepted hid hvalid hfilled hresult
  · obtain ⟨loaded, hre, hloaded⟩ := h.loads hid hvalid hfilled hkeeps.2 hresult
    have hvalidated := hre.validate.mpr ((truncated_validate_version snapshot _).mpr htruncated)
    have hsame : SameAggregate loaded
        (truncated { snapshot with version := snapshot.version + 1 }) := hre.truncated
    rw [SameAggregate, truncated_idem] at hsame
    exact ⟨_, loaded, fileSave_loads hc, (hloaded loaded).mpr ⟨rfl, hvalidated⟩, hsame.symm,
      hkeeps⟩

def twoDefinitions : FileStore where
  workflows := KeyMap.ofList [(ascii "w", sampleDefinition),
    (ascii "x", { sampleDefinition with id := ascii "x" })]

def firstSnapshot : WorkflowRunSnapshot where
  id := ascii "r"
  workflowID := ascii "w"
  version := 0
  status := .pending
  createdAt := 1000
  updatedAt := 1000
  tasks := [newTaskRun (ascii "r") 1000 (ascii "a"), newTaskRun (ascii "r") 1000 (ascii "b")]
  workers := []

def createdSnapshot : WorkflowRunSnapshot := { firstSnapshot with version := 1 }

def laterSnapshot : WorkflowRunSnapshot := { createdSnapshot with updatedAt := 2000 }

/-- A save in both stores, each of which stays as it is when it refuses. -/
def saveBoth (stores : FileStore × Database) (snapshot : WorkflowRunSnapshot) :
    FileStore × Database :=
  (stores.1.mutate (.saveRun .live .live snapshot),
    match stores.2.saveRun .live snapshot with
    | .ok result => result.1
    | .error _ => stores.2)

/-- A snapshot of the run with the identity of the run, in values that fit the columns. -/
structure SnapshotOf (stored snapshot : WorkflowRunSnapshot) : Prop where
  id : snapshot.id = stored.id
  valid : snapshot.validate = .ok ()
  filled : Filled snapshot
  identity : KeepsIdentity stored snapshot
  truncated : (truncated snapshot).validate = .ok ()
  storable : Storable snapshot
  version : snapshot.version + 1 < Database.maxInt64

theorem Mirrors.saveBoth (h : Mirrors file db stored) (hs : SnapshotOf stored snapshot) :
    ∃ stored', Mirrors (saveBoth (file, db) snapshot).1 (saveBoth (file, db) snapshot).2 stored' ∧
      stored'.id = stored.id ∧ KeepsIdentity stored stored' := by
  have hagree := h.agree hs.id hs.valid hs.filled hs.identity hs.truncated hs.storable
  cases hdb : db.saveRun .live snapshot with
  | ok result =>
    obtain ⟨c, hc⟩ := hagree.accept.mpr ⟨result, hdb⟩
    refine ⟨{ snapshot with version := snapshot.version + 1 }, ?_, hs.id, hs.identity⟩
    have hnext := h.next hs.id hs.valid hs.filled hs.identity.2 hs.version hc hdb
    simpa only [Persistence.saveBoth, FileStore.mutate, FileStore.prepare, hc, hdb] using hnext
  | error e =>
    -- refused by the database, hence by the file store
    have hfile : ∀ c, file.saveRun .live .live snapshot ≠ .ok (some c) := by
      intro c hc
      obtain ⟨result, hresult⟩ := hagree.accept.mp ⟨c, hc⟩
      rw [hdb] at hresult
      cases hresult
    refine ⟨stored, ?_, rfl, rfl, rfl⟩
    have hsame : file.mutate (.saveRun .live .live snapshot) = file := by
      rw [FileStore.mutate, FileStore.prepare]
      split
      · exact absurd ‹_› (hfile _)
      · rfl
    simpa only [Persistence.saveBoth, hsame, hdb] using h

/-- Through any history of saves that keep the identity of the run the stores hold the
same run, with the workflow and the creation time it had. -/
theorem Mirrors.saveAll (h : Mirrors file db stored) :
    ∀ snapshots : List WorkflowRunSnapshot, (∀ s ∈ snapshots, SnapshotOf stored s) →
      ∃ stored', Mirrors (snapshots.foldl Persistence.saveBoth (file, db)).1
        (snapshots.foldl Persistence.saveBoth (file, db)).2 stored' ∧
        stored'.id = stored.id ∧ KeepsIdentity stored stored' := by
  intro snapshots
  induction snapshots generalizing file db stored with
  | nil => exact fun _ => ⟨stored, h, rfl, rfl, rfl⟩
  | cons s rest ih =>
    intro hall
    obtain ⟨stored₁, h₁, hid₁, hkeeps₁⟩ := h.saveBoth (hall s List.mem_cons_self)
    have hrest : ∀ s' ∈ rest, SnapshotOf stored₁ s' := by
      intro s' hs'
      have hof := hall s' (List.mem_cons_of_mem _ hs')
      exact { hof with
        id := hof.id.trans hid₁.symm
        identity := ⟨hof.identity.1.trans hkeeps₁.1.symm, hof.identity.2.trans hkeeps₁.2.symm⟩ }
    obtain ⟨stored₂, h₂, hid₂, hkeeps₂⟩ := ih h₁ hrest
    exact ⟨stored₂, h₂, hid₂.trans hid₁, hkeeps₂.1.trans hkeeps₁.1, hkeeps₂.2.trans hkeeps₁.2⟩

/-- From the creation of a run in both stores on, through any history of saves that keep its
identity, accepted or refused: the stores agree about the next save. -/
theorem stores_agree_through_history (hdefs : db.definitions = file.workflows)
    (hnone : db.taskRunsOf snapshot.id = ∅) (hfilled : Filled snapshot)
    (hc : file.createRun .live .live snapshot = .ok (some c))
    (hok : db.createRun .live snapshot = .ok result) (snapshots : List WorkflowRunSnapshot)
    {next : WorkflowRunSnapshot}
    (hall : ∀ s ∈ next :: snapshots, SnapshotOf { snapshot with version := 1 } s) :
    Agree (snapshots.foldl saveBoth (c.next, result.1)).1
      (snapshots.foldl saveBoth (c.next, result.1)).2 { snapshot with version := 1 } next := by
  obtain ⟨hnext, hrest⟩ := List.forall_mem_cons.mp hall
  obtain ⟨stored, h, hid, hkeeps⟩ :=
    (createRun_mirrors hdefs hnone hfilled hc hok).saveAll snapshots hrest
  have hagree := h.agree (hnext.id.trans hid.symm) hnext.valid hnext.filled
    ⟨hnext.identity.1.trans hkeeps.1.symm, hnext.identity.2.trans hkeeps.2.symm⟩ hnext.truncated
    hnext.storable
  refine ⟨hagree.accept, fun c' result' hc' hresult' => ?_⟩
  obtain ⟨fromFile, fromDatabase, hfile, hdatabase, hsame, hidentity⟩ :=
    hagree.load c' result' hc' hresult'
  exact ⟨fromFile, fromDatabase, hfile, hdatabase, hsame, hidentity.1.trans hkeeps.1,
    hidentity.2.trans hkeeps.2⟩

theorem sample_stores_agree : ∃ c result,
    twoDefinitions.createRun .live .live firstSnapshot = .ok (some c) ∧
    ({ definitions := twoDefinitions.workflows } : Database).createRun .live firstSnapshot =
      .ok result ∧
    Agree (saveBoth (c.next, result.1) laterSnapshot).1 (saveBoth (c.next, result.1) laterSnapshot).2
      createdSnapshot { laterSnapshot with version := 2, updatedAt := 3000 } := by
  obtain ⟨c, hc⟩ : ∃ c, twoDefinitions.createRun .live .live firstSnapshot = .ok (some c) :=
    ⟨_, rfl⟩
  obtain ⟨result, hresult⟩ : ∃ result, ({ definitions := twoDefinitions.workflows } :
      Database).createRun .live firstSnapshot = .ok result := ⟨_, rfl⟩
  refine ⟨c, result, hc, hresult, stores_agree_through_history rfl rfl (by decide) hc hresult
    [laterSnapshot] fun s hs => ?_⟩
  have hlater : SnapshotOf createdSnapshot laterSnapshot :=
    ⟨rfl, rfl, by decide, ⟨rfl, rfl⟩, rfl, ⟨by decide, by decide, by decide⟩, by decide⟩
  rcases List.mem_cons.mp hs with rfl | hs
  · exact ⟨rfl, rfl, by decide, ⟨rfl, rfl⟩, rfl,
      ⟨hlater.storable.run, hlater.storable.tasks, hlater.storable.workers⟩, by decide⟩
  · rw [List.mem_singleton.mp hs]
    exact hlater

end

end ForgeFlow.Persistence
