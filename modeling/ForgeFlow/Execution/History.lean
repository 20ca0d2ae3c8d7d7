import ForgeFlow.Execution.TaskMoves

/-!
# Histories of a run

What holds along every list of operations: a task leaves pending only behind its
dependencies, a finished task stays as it is, and an attempt gets one outcome.
-/

namespace ForgeFlow.Execution

open ForgeFlow.Base ForgeFlow.Workflow Relation

variable {runID : RunID} {d : WorkflowDefinition} {now : Int} {k : TaskID} {t t' : TaskRun}
  {a : AttemptID}

section

variable {run run' : WorkflowRun}

/-- What holds of the run and of any accepted result holds of what is kept. -/
theorem orElse_induction {P : WorkflowRun → Prop} {result : Except RunError WorkflowRun}
    (hrun : P run) (hok : ∀ r, result = .ok r → P r) : P (run.orElse result) := by
  cases result with
  | error e => exact hrun
  | ok r => exact hok r rfl

theorem map_fst_ok {α : Type} {result : Except RunError (WorkflowRun × α)}
    (h : result.map Prod.fst = .ok run') : ∃ a, result = .ok (run', a) := by
  cases result with
  | error e => cases h
  | ok p =>
    cases h
    exact ⟨p.2, rfl⟩

/-- What each operation may do to a task of the run. -/
def Operation.permits (run : WorkflowRun) : Operation → TaskID → Permits
  | .markNewReady _, k => { ready := run.Unlocked k }
  | .startTaskAttempt taskID workerID _ _, k => { start := fun w => k = taskID ∧ w = workerID }
  | .stop .., _ => { cancel := True }
  | _, _ => {}

/-- Every operation changes the tasks of a coherent run by moves it permits. -/
theorem apply_evolves (h : Coherent run) (op : Operation) :
    Evolves (op.permits run) run (run.apply op) := by
  cases op with
  | startWorkflow now =>
    exact orElse_induction (.refl run) fun r hr => transitionWorkflow_evolves hr
  | markNewReady now =>
    exact markNewReady_evolves now rfl fun k hk => (mem_completedTaskIDs h.tasks).mp hk
  | startTaskAttempt k w d now =>
    refine orElse_induction (.refl run) fun r hr => ?_
    obtain ⟨a, ha⟩ := map_fst_ok hr
    exact startTaskAttempt_evolves ha ⟨rfl, rfl⟩
  | completeTaskAttempt k r w a output taskErr now =>
    refine orElse_induction (.refl run) fun r hr => ?_
    obtain ⟨o, ho⟩ := map_fst_ok hr
    exact completeTaskAttempt_evolves ho
  | recordWorkerHeartbeat w d now =>
    exact orElse_induction (.refl run) fun r hr => recordWorkerHeartbeat_evolves hr
  | recoverExpiredLeases now => exact recoverExpiredLeases_evolves run now
  | promoteDueRetries now => exact promoteDueRetries_evolves run now
  | stop target cause now now' => exact stopRun_evolves run target cause now now' fun _ => trivial
  | succeed now =>
    exact orElse_induction (.refl run) fun r hr => transitionWorkflow_evolves hr
  | persisted version => exact .of_tasks_eq rfl rfl rfl (le_refl _) rfl
  | restore =>
    refine orElse_induction (.refl run) fun r hr => ?_
    rw [restore_snapshot_eq h h.definition hr]
    exact .refl run

/-- The worker table changes only by a fresh heartbeat of a valid worker. -/
def WorkersFiled (run run' : WorkflowRun) : Prop :=
  run'.workers = run.workers ∨ ∃ w timestamp, validIdentifier w = true ∧
    run.updatedAt ≤ timestamp ∧ run'.workers = run.workers.insert w ⟨w, timestamp⟩

theorem markReadyLoop_workers : ∀ (candidates : List TaskDefinition) (run : WorkflowRun)
    (now : Nat → Int), (markReadyLoop run candidates now).1.workers = run.workers ∧
      (markReadyLoop run candidates now).1.status = run.status ∧
      (markReadyLoop run candidates now).1.version = run.version
  | [], run, _ => ⟨rfl, rfl, rfl⟩
  | task :: rest, run, now => by
    unfold markReadyLoop
    split
    · exact ⟨rfl, rfl, rfl⟩
    · split
      · exact markReadyLoop_workers rest run now
      · split
        · exact ⟨rfl, rfl, rfl⟩
        · rename_i run₁ hok
          have hframe : run₁.workers = run.workers ∧ run₁.status = run.status ∧
              run₁.version = run.version := by
            unfold WorkflowRun.transitionTask at hok
            split at hok
            · cases hok
            · split at hok
              · cases hok
              · cases hok
                exact ⟨rfl, rfl, rfl⟩
          have ih := markReadyLoop_workers rest run₁ fun i => now (i + 1)
          exact ⟨ih.1.trans hframe.1, ih.2.1.trans hframe.2.1, ih.2.2.trans hframe.2.2⟩

theorem markNewReady_frame (run : WorkflowRun) (definition : WorkflowDefinition)
    (completed : KeyMap TaskID Unit) (now : Nat → Int) :
    (markNewReady run definition completed now).1.workers = run.workers ∧
      (markNewReady run definition completed now).1.status = run.status ∧
      (markNewReady run definition completed now).1.version = run.version := by
  unfold markNewReady
  split
  · exact ⟨rfl, rfl, rfl⟩
  · exact markReadyLoop_workers _ run now

theorem stopRun_workers (run : WorkflowRun) (target : WorkflowRunStatus)
    (cause : Option TaskError) (now now' : Int) :
    (stopRun run target cause now now').1.workers = run.workers := by
  unfold stopRun
  simp only
  split
  · rfl
  · rename_i hok
    obtain ⟨-, rfl⟩ := transitionWorkflow_ok hok
    rfl

theorem apply_workersFiled (h : Coherent run) (op : Operation) :
    WorkersFiled run (run.apply op) := by
  cases op with
  | startWorkflow now =>
    refine orElse_induction (.inl rfl) fun r hr => ?_
    obtain ⟨-, rfl⟩ := transitionWorkflow_ok hr
    exact .inl rfl
  | markNewReady now => exact .inl (markNewReady_frame _ _ _ _).1
  | startTaskAttempt k w d now =>
    refine orElse_induction (.inl rfl) fun r hr => ?_
    obtain ⟨a, ha⟩ := map_fst_ok hr
    obtain ⟨hw, -, t, -, -, -, rfl⟩ := startTaskAttempt_ok ha
    exact .inr ⟨w, _, hw, le_nextTimestamp run now, rfl⟩
  | completeTaskAttempt k r w a output taskErr now =>
    refine orElse_induction (.inl rfl) fun r' hr => ?_
    obtain ⟨o, ho⟩ := map_fst_ok hr
    rcases completeTaskAttempt_cases run k r w a output taskErr now with
      ⟨-, he⟩ | ⟨t, -, ⟨-, he⟩ | ⟨-, he⟩⟩
    · rw [he] at ho
      cases ho
    · rw [he] at ho
      cases ho
      exact .inl rfl
    · rw [he] at ho
      cases ho
      exact .inl rfl
  | recordWorkerHeartbeat w d now =>
    refine orElse_induction (.inl rfl) fun r hr => ?_
    obtain ⟨hw, -, rfl⟩ := recordWorkerHeartbeat_ok hr
    exact .inr ⟨w, _, hw, le_nextTimestamp run now, rfl⟩
  | recoverExpiredLeases now => exact .inl rfl
  | promoteDueRetries now => exact .inl rfl
  | stop target cause now now' => exact .inl (stopRun_workers run target cause now now')
  | succeed now =>
    refine orElse_induction (.inl rfl) fun r hr => ?_
    obtain ⟨-, rfl⟩ := transitionWorkflow_ok hr
    exact .inl rfl
  | persisted version => exact .inl rfl
  | restore =>
    refine orElse_induction (.inl rfl) fun r hr => ?_
    rw [restore_snapshot_eq h h.definition hr]
    exact .inl rfl

theorem Coherent.of_evolves {permits : TaskID → Permits} (h : Coherent run)
    (he : Evolves permits run run') (hw : WorkersFiled run run') : Coherent run' where
  tasks := he.identified h.tasks
  workers := by
    intro w hb hget
    rcases hw with hw | ⟨w', timestamp, -, -, hw⟩
    · exact h.workers w hb (hw ▸ hget)
    · rw [hw, KeyMap.get?_insert] at hget
      split at hget
      · rename_i heq
        cases hget
        exact heq.symm
      · exact h.workers w hb hget
  definition := by rw [he.definition]; exact h.definition

theorem Coherent.apply (h : Coherent run) (op : Operation) : Coherent (run.apply op) :=
  h.of_evolves (apply_evolves h op) (apply_workersFiled h op)

theorem Coherent.applyAll (h : Coherent run) (ops : List Operation) :
    Coherent (run.applyAll ops) := by
  induction ops generalizing run with
  | nil => exact h
  | cons op ops ih => exact ih (h.apply op)

end

/-! ## Where a history starts -/

/-- The task run every task of a new run starts from. -/
def newTaskRun (runID : RunID) (now : Int) (taskID : TaskID) : TaskRun where
  taskID := taskID
  taskRunID := taskRunIDFor runID taskID
  status := .pending
  updatedAt := now

theorem newWorkflowRun_ok {run : WorkflowRun} (h : newWorkflowRun runID d now = .ok run) :
    validRunID runID = true ∧ d.validate = .ok () ∧ run = {
      id := runID
      definition := cloneDefinition d
      version := 0
      status := .pending
      tasks := KeyMap.ofList ((cloneDefinition d).tasks.map fun task =>
        (task.id, newTaskRun runID now task.id))
      workers := ∅
      createdAt := now
      updatedAt := now } := by
  unfold newWorkflowRun at h
  split at h
  · cases h
  · rename_i hid
    split at h
    · cases h
    · rename_i hd
      cases h
      exact ⟨by simpa using hid, hd, rfl⟩

theorem newWorkflowRun_get? {runID : RunID} {d : WorkflowDefinition} {now : Int}
    {run : WorkflowRun} (h : newWorkflowRun runID d now = .ok run) {k : TaskID} {t : TaskRun} :
    run.tasks.get? k = some t ↔
      k ∈ d.tasks.map TaskDefinition.id ∧ t = newTaskRun runID now k := by
  obtain ⟨-, hd, rfl⟩ := newWorkflowRun_ok h
  have hfst : ((cloneDefinition d).tasks.map fun task =>
      (task.id, newTaskRun runID now task.id)).map Prod.fst = d.tasks.map TaskDefinition.id := by
    rw [List.map_map, ← cloneDefinition_ids d]
    rfl
  have hnd := (WorkflowDefinition.wellFormed_of_validate hd).ids_nodup
  rw [KeyMap.get?_ofList_iff (by rw [hfst]; exact hnd), ← cloneDefinition_ids d]
  simp only [List.mem_map, Prod.mk.injEq]
  constructor
  · rintro ⟨task, hmem, rfl, rfl⟩
    exact ⟨⟨task, hmem, rfl⟩, rfl⟩
  · rintro ⟨⟨task, hmem, rfl⟩, rfl⟩
    exact ⟨task, hmem, rfl, rfl⟩

theorem newWorkflowRun_coherent
    {run : WorkflowRun} (h : newWorkflowRun runID d now = .ok run) : Coherent run := by
  have hget := @newWorkflowRun_get? runID d now run h
  obtain ⟨-, -, rfl⟩ := newWorkflowRun_ok h
  refine ⟨fun k t ht => ?_, nofun, cloneDefinition_clone d⟩
  obtain ⟨-, rfl⟩ := hget.mp ht
  exact ⟨rfl, rfl, le_refl _, rfl, nofun, nofun⟩

/-- Restoring fills in the IDs a task run lacks and changes nothing else. -/
theorem restored_fields (t : TaskRun) (runID : RunID) : t.restored runID =
    let taskRunID := if t.taskRunID = [] then taskRunIDFor runID t.taskID else t.taskRunID
    { t with
      taskRunID := taskRunID
      currentAttemptID :=
        if t.currentAttemptID = [] ∧ 0 < t.attemptCount then attemptIDFor taskRunID t.attemptCount
        else t.currentAttemptID } := by
  unfold TaskRun.restored
  by_cases h1 : t.taskRunID = [] <;>
    by_cases h2 : t.currentAttemptID = [] ∧ 0 < t.attemptCount <;> simp [h1, h2]

theorem TaskRunValid.identified {createdAt : Int}
    (h : TaskRunValid runID createdAt t) : Identified runID t.taskID (t.restored runID) := by
  have hn := h.attempts
  have hrun : (if t.taskRunID = [] then taskRunIDFor runID t.taskID else t.taskRunID) =
      taskRunIDFor runID t.taskID := by
    split
    · rfl
    · rename_i hne
      exact h.taskRun.resolve_left hne
  have hattempt : (if t.currentAttemptID = [] ∧ 0 < t.attemptCount then
        attemptIDFor (taskRunIDFor runID t.taskID) t.attemptCount else t.currentAttemptID) =
      if t.attemptCount = 0 then []
      else attemptIDFor (taskRunIDFor runID t.taskID) t.attemptCount := by
    by_cases hz : t.attemptCount = 0
    · simp [hz, h.noAttempt hz]
    · by_cases hnil : t.currentAttemptID = []
      · rw [if_pos ⟨hnil, by omega⟩, if_neg hz]
      · rw [if_neg (by simp [hnil]), if_neg hz]
        exact h.attemptID.resolve_left hnil
  rw [restored_fields]
  simp only [hrun, hattempt]
  refine ⟨rfl, rfl, hn, rfl, fun hr => (h.running hr).1, fun l hl => ?_⟩
  have hlease := h.lease l hl
  have hne : t.currentAttemptID ≠ [] := by
    intro hnil
    have := hlease.attempt
    rw [hlease.leaseAttempt, hnil] at this
    exact absurd this (by decide)
  refine ⟨hlease.running, ?_, hlease.leaseTaskRun⟩
  rw [hlease.leaseAttempt, if_neg (h.running hlease.running).1]
  exact h.attemptID.resolve_left hne

theorem restoreWorkflowRun_get? {s : WorkflowRunSnapshot} {d : WorkflowDefinition}
    {run : WorkflowRun} (h : restoreWorkflowRun s d = .ok run) {k : TaskID} {t : TaskRun} :
    run.tasks.get? k = some t ↔ ∃ u ∈ s.tasks, u.taskID = k ∧ t = u.restored s.id := by
  obtain ⟨hv, -, -, -, -, rfl⟩ := restoreWorkflowRun_ok h
  have hfst : (s.tasks.map fun task => (task.taskID, task.restored s.id)).map Prod.fst =
      s.tasks.map TaskRun.taskID := by
    rw [List.map_map]
    rfl
  rw [restoredRun, KeyMap.get?_ofList_iff (by rw [hfst]; exact hv.taskIDs)]
  simp only [List.mem_map, Prod.mk.injEq]
  exact exists_congr fun u => and_congr_right fun _ => and_congr_right fun _ => eq_comm

theorem restoreWorkflowRun_coherent {s : WorkflowRunSnapshot}
    {run : WorkflowRun} (h : restoreWorkflowRun s d = .ok run) : Coherent run := by
  have hget := @restoreWorkflowRun_get? s d run h
  obtain ⟨hv, -, -, -, -, rfl⟩ := restoreWorkflowRun_ok h
  refine ⟨fun k t ht => ?_, fun w hb hw => ?_, cloneDefinition_clone d⟩
  · obtain ⟨u, hu, rfl, rfl⟩ := hget.mp ht
    exact (hv.taskRuns u hu).identified
  · have hfst : (s.workers.map fun worker => (worker.workerID, worker)).map Prod.fst =
        s.workers.map WorkerHeartbeat.workerID := by
      rw [List.map_map]
      rfl
    rw [restoredRun, KeyMap.get?_ofList_iff (by rw [hfst]; exact hv.workerIDs)] at hw
    obtain ⟨hb', -, heq⟩ := List.mem_map.mp hw
    cases heq
    rfl

/-! ## Tasks wait for their dependencies, and finish once -/

namespace TaskRunStatus

/-- The task has been made ready at some time and was not canceled. -/
def released : TaskRunStatus → Bool
  | ready | running | retryWaiting | succeeded | failed => true
  | _ => false

end TaskRunStatus

/-- A move releases a task only if it is unlocked. -/
theorem TaskMove.released {since : Int} {policy : RetryPolicy} {taskID : TaskID}
    {p : Permits} (hm : TaskMove runID since policy taskID p t t')
    (h : t'.status.released = true) : t.status.released = true ∨ p.ready := by
  cases hm with
  | markReady timestamp hs hr hp => exact .inr hp
  | start w d timestamp hs hr hw hd hp => exact .inl (by rw [hr]; rfl)
  | renew w d timestamp hs hd =>
    rcases renew_cases t w d timestamp with he | ⟨l, -, hr, -, -, -⟩
    · exact .inl (he ▸ h)
    · exact .inl (by rw [hr]; rfl)
  | complete output taskErr timestamp hs hr => exact .inl (by rw [hr]; rfl)
  | recover timestamp hs hr => exact .inl (by rw [hr]; rfl)
  | promote timestamp hs hr => exact .inl (by rw [hr]; rfl)
  | cancel cause timestamp hs hp =>
    rcases cancel_cases t cause timestamp with ⟨-, he⟩ | ⟨-, he⟩
    · exact .inl (he ▸ h)
    · rw [he] at h
      cases h

/-- Whatever has been released has its dependencies succeeded. -/
def DependenciesRespected (run : WorkflowRun) : Prop :=
  ∀ k t, run.tasks.get? k = some t → t.status.released = true → run.Unlocked k

section

variable {run run' : WorkflowRun}

theorem Evolves.unlocked {permits : TaskID → Permits} (h : Evolves permits run run')
    (hu : run.Unlocked k) : run'.Unlocked k := by
  intro task htask hid dep hdep
  rw [h.definition] at htask
  obtain ⟨u, hget, hs⟩ := hu task htask hid dep hdep
  exact ⟨u, h.frozen hget (by rw [hs]; rfl), hs⟩

theorem DependenciesRespected.evolves {permits : TaskID → Permits}
    (h : DependenciesRespected run) (he : Evolves permits run run')
    (hp : ∀ k, (permits k).ready → run.Unlocked k) : DependenciesRespected run' := by
  intro k t' ht' hrel
  apply he.unlocked
  cases ht : run.tasks.get? k with
  | none =>
    rw [he.absent k ht] at ht'
    cases ht'
  | some t =>
    obtain ⟨u, hu, hmoves⟩ := he.moves k t ht
    rw [ht'] at hu
    cases hu
    -- walk the moves backwards: either one of them was allowed, or none released the task
    have hback : t.status.released = true ∨ run.Unlocked k := by
      clear ht'
      induction hmoves with
      | refl => exact .inl hrel
      | tail _ hm ih =>
        rcases hm.released hrel with hr | hu
        · exact ih hr
        · exact .inr (hp k hu)
    exact hback.elim (h k t ht) fun hu => hu

theorem permits_ready (run : WorkflowRun) (op : Operation) (k : TaskID)
    (h : (op.permits run k).ready) : run.Unlocked k := by
  cases op <;> first | exact h | exact h.elim

theorem DependenciesRespected.applyAll (hc : Coherent run) (h : DependenciesRespected run)
    (ops : List Operation) : DependenciesRespected (run.applyAll ops) := by
  induction ops generalizing run with
  | nil => exact h
  | cons op ops ih =>
    exact ih (hc.apply op) (h.evolves (apply_evolves hc op) (permits_ready run op))

theorem applyAll_frozen (hc : Coherent run)
    (ht : run.tasks.get? k = some t) (hterm : t.status.terminal = true) (ops : List Operation) :
    (run.applyAll ops).tasks.get? k = some t := by
  induction ops generalizing run with
  | nil => exact ht
  | cons op ops ih => exact ih (hc.apply op) ((apply_evolves hc op).frozen ht hterm)

theorem applyAll_definition (hc : Coherent run) (ops : List Operation) :
    (run.applyAll ops).definition = run.definition ∧ (run.applyAll ops).id = run.id := by
  induction ops generalizing run with
  | nil => exact ⟨rfl, rfl⟩
  | cons op ops ih =>
    have hstep := apply_evolves hc op
    have hrest := ih (hc.apply op)
    exact ⟨hrest.1.trans hstep.definition, hrest.2.trans hstep.id⟩

end

/-- In every state a run reaches, a task that is ready, running, waiting for a
retry, succeeded or failed has only succeeded dependencies; and a finished task
keeps its whole record through any further operations. -/
theorem released_tasks_unlocked_and_finished_tasks_frozen
    {definition : WorkflowDefinition} {run : WorkflowRun}
    (hnew : newWorkflowRun runID definition now = .ok run) (ops : List Operation) :
    (∀ task ∈ definition.tasks, ∀ t, (run.applyAll ops).tasks.get? task.id = some t →
      t.status ∈ [.ready, .running, .retryWaiting, .succeeded, .failed] →
      ∀ dep ∈ task.dependencies.elems,
        ∃ u, (run.applyAll ops).tasks.get? dep = some u ∧ u.status = .succeeded) ∧
    (∀ k t, (run.applyAll ops).tasks.get? k = some t →
      t.status ∈ [.succeeded, .failed, .canceled] →
      ∀ later, ((run.applyAll ops).applyAll later).tasks.get? k = some t) := by
  have hc := newWorkflowRun_coherent hnew
  have hstart : DependenciesRespected run := by
    intro k t ht hrel
    obtain ⟨-, rfl⟩ := (newWorkflowRun_get? hnew).mp ht
    cases hrel
  constructor
  · intro task htask t ht hstatus dep hdep
    have hrel : t.status.released = true := by
      simp only [List.mem_cons, List.not_mem_nil, or_false] at hstatus
      rcases hstatus with hs | hs | hs | hs | hs <;> rw [hs] <;> rfl
    have hdef : (run.applyAll ops).definition = cloneDefinition definition := by
      obtain ⟨-, -, hrun⟩ := newWorkflowRun_ok hnew
      rw [(applyAll_definition hc ops).1, hrun]
    apply hstart.applyAll hc ops task.id t ht hrel (cloneTaskDefinition task) _ rfl dep
    · simpa [cloneTaskDefinition] using hdep
    · rw [hdef]
      exact List.mem_map.mpr ⟨task, htask, rfl⟩
  · intro k t ht hstatus later
    refine applyAll_frozen (hc.applyAll ops) ht ?_ later
    simp only [List.mem_cons, List.not_mem_nil, or_false] at hstatus
    rcases hstatus with hs | hs | hs <;> rw [hs] <;> rfl

/-- Two tasks, the second behind the first, each with two attempts. -/
def sampleDefinition : WorkflowDefinition where
  id := ascii "w"
  tasks := [
    ⟨ascii "a", ascii "first", .nil, ascii "h", [], ⟨2, 0, 0⟩⟩,
    ⟨ascii "b", ascii "second", .of [ascii "a"], ascii "h", [], ⟨2, 5, 0⟩⟩]

theorem sample_released_tasks_unlocked : ∃ run,
    newWorkflowRun (ascii "r") sampleDefinition 1 = .ok run ∧
    (∀ ops task, task ∈ sampleDefinition.tasks → ∀ t,
      (run.applyAll ops).tasks.get? task.id = some t →
      t.status ∈ [.ready, .running, .retryWaiting, .succeeded, .failed] →
      ∀ dep ∈ task.dependencies.elems,
        ∃ u, (run.applyAll ops).tasks.get? dep = some u ∧ u.status = .succeeded) := by
  obtain ⟨run, hrun⟩ : ∃ run, newWorkflowRun (ascii "r") sampleDefinition 1 = .ok run := ⟨_, rfl⟩
  exact ⟨run, hrun, fun ops task htask =>
    (released_tasks_unlocked_and_finished_tasks_frozen hrun ops).1 task htask⟩

/-! ## An attempt gets one outcome -/

/-- Some task runs under the attempt. -/
def Live (run : WorkflowRun) (a : AttemptID) : Prop :=
  ∃ k t, run.tasks.get? k = some t ∧ t.status = .running ∧ t.currentAttemptID = a

/-- Attempt `n` of the task is over: later attempts were made, or it is the last
and the task does not run. -/
def TaskRun.Past (t : TaskRun) (n : Int) : Prop :=
  n < t.attemptCount ∨ n = t.attemptCount ∧ t.status ≠ .running

/-- The attempt was made and is over. -/
def Settled (run : WorkflowRun) (a : AttemptID) : Prop :=
  ∃ k t n, run.tasks.get? k = some t ∧ a = attemptIDFor (taskRunIDFor run.id k) n ∧ t.Past n

/-- Moves never bring an attempt back. -/
theorem TaskMove.past {since : Int} {policy : RetryPolicy} {taskID : TaskID}
    {p : Permits} (hi : Identified runID taskID t)
    (hm : TaskMove runID since policy taskID p t t') {n : Int} (h : t.Past n) :
    t'.Past n := by
  have hended : ∀ timestamp, AttemptEnded timestamp t t' → t'.Past n := by
    intro timestamp he
    have hnot : t'.status ≠ .running := by
      rcases he.status with ⟨hs | hs | hs, -⟩ | ⟨hs, -⟩ <;> rw [hs] <;> decide
    rcases h with hlt | ⟨heq, -⟩
    · exact .inl (he.attempts.symm ▸ hlt)
    · exact .inr ⟨heq.trans he.attempts.symm, hnot⟩
  cases hm with
  | markReady timestamp hs hr hp => exact h.imp_right fun h => ⟨h.1, nofun⟩
  | start w d timestamp hs hr hw hd hp =>
    left
    show n < t.attemptCount + 1
    rcases h with hlt | ⟨heq, -⟩ <;> omega
  | renew w d timestamp hs hd =>
    rcases renew_cases t w d timestamp with he | ⟨l, -, -, -, -, he⟩ <;> rw [he] <;> exact h
  | complete output taskErr timestamp hs hr => exact hended timestamp (complete_ended t policy _ _ _)
  | recover timestamp hs hr => exact hended timestamp (recover_ended hi policy timestamp)
  | promote timestamp hs hr => exact h.imp_right fun h => ⟨h.1, nofun⟩
  | cancel cause timestamp hs hp =>
    rcases cancel_cases t cause timestamp with ⟨-, he⟩ | ⟨-, he⟩
    · rw [he]
      exact h
    · rw [he]
      exact h.imp_right fun h => ⟨h.1, nofun⟩

section

variable {run run' : WorkflowRun}

theorem Evolves.past {permits : TaskID → Permits} (he : Evolves permits run run')
    (hc : Coherent run) (ht : run.tasks.get? k = some t) {n : Int}
    (h : t.Past n) : ∃ t', run'.tasks.get? k = some t' ∧ t'.Past n :=
  he.keeps hc (fun _ _ hi hm hp => hm.past hi hp) ht h

theorem Evolves.settled {permits : TaskID → Permits} (he : Evolves permits run run')
    (hc : Coherent run) (h : Settled run a) : Settled run' a := by
  obtain ⟨k, t, n, ht, ha, hp⟩ := h
  obtain ⟨t', ht', hp'⟩ := he.past hc ht hp
  exact ⟨k, t', n, ht', by rw [he.id]; exact ha, hp'⟩

theorem Settled.not_live (hc : Coherent run) (h : Settled run a) :
    ¬Live run a := by
  rintro ⟨k', t', ht', hr, ha'⟩
  obtain ⟨k, t, n, ht, ha, hp⟩ := h
  have hid := hc.tasks k' t' ht'
  rw [hid.attempt_ne_nil (hid.running hr), ha] at ha'
  obtain ⟨hkr, hn⟩ := attemptIDFor_injective ha'
  obtain ⟨-, rfl⟩ := taskRunIDFor_injective hkr
  rw [ht] at ht'
  cases ht'
  rcases hp with hlt | ⟨-, hnr⟩
  · omega
  · exact hnr hr

/-- The task of a live attempt, once the attempt has ended. -/
theorem settled_of_ended (hc : Coherent run) {timestamp : Int}
    (ht : run.tasks.get? k = some t) (hr : t.status = .running)
    (he : AttemptEnded timestamp t t') (hid : run'.id = run.id)
    (ht' : run'.tasks.get? k = some t') : Settled run' t.currentAttemptID := by
  have hi := hc.tasks k t ht
  refine ⟨k, t', t.attemptCount, ht', ?_, .inr ⟨he.attempts.symm, ?_⟩⟩
  · rw [hid]
    exact hi.attempt_ne_nil (hi.running hr)
  · rcases he.status with ⟨hs | hs | hs, -⟩ | ⟨hs, -⟩ <;> rw [hs] <;> decide

/-- The attempts whose leases a sweep recovers are those of the expired tasks. -/
theorem recoveries_attemptIDs (hc : Coherent run) (now : Int) :
    (run.recoverExpiredLeases now).2.map LeaseRecovery.attemptID =
      (run.tasks.entries.filter fun e => e.2.leaseExpired (run.nextTimestamp now)).map
        fun e => e.2.currentAttemptID := by
  have hrec : ∀ e ∈ run.tasks.entries, (e.2.recover run.id e.1 (run.retryPolicy e.1)
      (run.nextTimestamp now)).2.attemptID = e.2.currentAttemptID := by
    intro e he
    rw [recover_eq (hc.tasks e.1 e.2 ((KeyMap.mem_entries_iff _ _ _).mp he))]
  unfold WorkflowRun.recoverExpiredLeases
  simp only
  revert hrec
  induction run.tasks.entries with
  | nil => exact fun _ => rfl
  | cons e l ih =>
    intro hrec
    have hl := ih fun e' he' => hrec e' (List.mem_cons_of_mem _ he')
    by_cases hx : e.2.leaseExpired (run.nextTimestamp now) = true
    · simp only [List.filterMap_cons, List.filter_cons, hx, if_true, List.map_cons, hl,
        hrec e List.mem_cons_self]
    · simp only [List.filterMap_cons, List.filter_cons, hx, if_false, hl, Bool.false_eq_true]

theorem currentAttemptID_inj (hc : Coherent run) {e e' : TaskID × TaskRun}
    (he : run.tasks.get? e.1 = some e.2) (he' : run.tasks.get? e'.1 = some e'.2)
    (hr : e.2.status = .running) (hr' : e'.2.status = .running)
    (heq : e.2.currentAttemptID = e'.2.currentAttemptID) : e = e' := by
  have hi := hc.tasks e.1 e.2 he
  have hi' := hc.tasks e'.1 e'.2 he'
  rw [hi.attempt_ne_nil (hi.running hr), hi'.attempt_ne_nil (hi'.running hr')] at heq
  obtain ⟨-, hk⟩ := taskRunIDFor_injective (attemptIDFor_injective heq).1
  rw [← hk, he] at he'
  exact Prod.ext hk (Option.some.inj he')

/-- An operation settles distinct attempts, each live before and over after it. -/
theorem settles_spec (hc : Coherent run) (op : Operation) :
    (run.settles op).Nodup ∧ ∀ a ∈ run.settles op, Live run a ∧ Settled (run.apply op) a := by
  cases op with
  | completeTaskAttempt k r w a output taskErr now =>
    rcases completeTaskAttempt_cases run k r w a output taskErr now with
      ⟨-, he⟩ | ⟨t, ht, ⟨-, he⟩ | ⟨hru, he⟩⟩
    · simp [WorkflowRun.settles, he]
    · simp [WorkflowRun.settles, he]
    · obtain ⟨hr, -, rfl, -⟩ := runsUnder_running hru
      have happly : run.apply (.completeTaskAttempt k r w t.currentAttemptID output taskErr now) =
          { run with
            tasks := run.tasks.insert k
              (t.complete (run.retryPolicy k) output taskErr (run.nextTimestamp now)).1
            updatedAt := run.nextTimestamp now } := by
        simp [WorkflowRun.apply, he, Except.map, WorkflowRun.orElse]
      have hsub : run.settles (.completeTaskAttempt k r w t.currentAttemptID output taskErr now) ⊆
          [t.currentAttemptID] ∧
          (run.settles (.completeTaskAttempt k r w t.currentAttemptID output taskErr now)).Nodup := by
        simp only [WorkflowRun.settles, he]
        split <;> simp
      refine ⟨hsub.2, fun a ha => ?_⟩
      have haeq := List.mem_singleton.mp (hsub.1 ha)
      subst haeq
      refine ⟨⟨k, t, ht, hr, rfl⟩, ?_⟩
      rw [happly]
      exact settled_of_ended hc ht hr (complete_ended t _ output taskErr _) rfl
        (KeyMap.get?_insert_self _ _ _)
  | recoverExpiredLeases now =>
    simp only [WorkflowRun.settles, recoveries_attemptIDs hc]
    have hmem : ∀ e ∈ run.tasks.entries.filter
        fun e => e.2.leaseExpired (run.nextTimestamp now), run.tasks.get? e.1 = some e.2 ∧
          e.2.status = .running ∧ e.2.leaseExpired (run.nextTimestamp now) = true := by
      intro e he
      obtain ⟨hin, hx⟩ := List.mem_filter.mp he
      exact ⟨(KeyMap.mem_entries_iff _ _ _).mp hin, leaseExpired_running hx, hx⟩
    constructor
    · refine List.Nodup.map_on (fun e he e' he' heq => ?_) ?_
      · obtain ⟨h1, h2, -⟩ := hmem e he
        obtain ⟨h1', h2', -⟩ := hmem e' he'
        exact currentAttemptID_inj hc h1 h1' h2 h2' heq
      · exact (List.Nodup.of_map Prod.fst run.tasks.keys_nodup).filter _
    · intro a ha
      obtain ⟨e, he, rfl⟩ := List.mem_map.mp ha
      obtain ⟨hget, hr, hx⟩ := hmem e he
      refine ⟨⟨e.1, e.2, hget, hr, rfl⟩, ?_⟩
      refine settled_of_ended hc hget hr (recover_ended (hc.tasks e.1 e.2 hget) (run.retryPolicy e.1)
        (run.nextTimestamp now)) rfl ?_
      show (KeyMap.map _ run.tasks).get? e.1 = _
      rw [KeyMap.get?_map, hget, Option.map_some, if_pos hx]
  | startWorkflow now => simp [WorkflowRun.settles]
  | markNewReady now => simp [WorkflowRun.settles]
  | startTaskAttempt k w d now => simp [WorkflowRun.settles]
  | recordWorkerHeartbeat w d now => simp [WorkflowRun.settles]
  | promoteDueRetries now => simp [WorkflowRun.settles]
  | stop target cause now now' => simp [WorkflowRun.settles]
  | succeed now => simp [WorkflowRun.settles]
  | persisted version => simp [WorkflowRun.settles]
  | restore => simp [WorkflowRun.settles]

/-- Along a history no attempt is settled twice, nor one that was over before. -/
theorem settledBy_nodup (hc : Coherent run) (ops : List Operation) :
    (run.settledBy ops).Nodup ∧ ∀ a ∈ run.settledBy ops, ¬Settled run a := by
  induction ops generalizing run with
  | nil => exact ⟨List.nodup_nil, nofun⟩
  | cons op ops ih =>
    obtain ⟨hnd, hspec⟩ := settles_spec hc op
    obtain ⟨hnd', hfresh⟩ := ih (hc.apply op)
    refine ⟨List.nodup_append.mpr ⟨hnd, hnd', fun a ha b hb hab => ?_⟩, fun a ha hset => ?_⟩
    · subst hab
      exact hfresh a hb (hspec a ha).2
    · rcases List.mem_append.mp ha with ha | ha
      · exact hset.not_live hc (hspec a ha).1
      · exact hfresh a ha ((apply_evolves hc op).settled hc hset)

theorem settled_applyAll (hc : Coherent run) (ops : List Operation)
    (h : Settled run a) : Settled (run.applyAll ops) a := by
  induction ops generalizing run with
  | nil => exact h
  | cons op ops ih => exact ih (hc.apply op) ((apply_evolves hc op).settled hc h)

theorem settledBy_settled (hc : Coherent run) (ops : List Operation) :
    ∀ a ∈ run.settledBy ops, Settled (run.applyAll ops) a := by
  induction ops generalizing run with
  | nil => exact nofun
  | cons op ops ih =>
    intro a ha
    rcases List.mem_append.mp ha with ha | ha
    · exact settled_applyAll (hc.apply op) ops ((settles_spec hc op).2 a ha).2
    · exact ih (hc.apply op) a ha

end

/-- A run as the engine gets hold of it: new, or restored from a snapshot. -/
def Obtained (run : WorkflowRun) : Prop :=
  (∃ runID definition now, newWorkflowRun runID definition now = .ok run) ∨
    ∃ snapshot definition, restoreWorkflowRun snapshot definition = .ok run

theorem Obtained.coherent {run : WorkflowRun} (h : Obtained run) : Coherent run := by
  rcases h with ⟨runID, definition, now, h⟩ | ⟨snapshot, definition, h⟩
  · exact newWorkflowRun_coherent h
  · exact restoreWorkflowRun_coherent h

/-- Over the whole history of a run each attempt ID is settled at most once, by a
completion or by a lease recovery. Any other completion, such as one for an
attempt already settled or one with another task-run or worker ID, is answered
`ignored`, or with an error if it names no task of the run, and changes nothing. -/
theorem attempt_settled_at_most_once {run : WorkflowRun} (hrun : Obtained run)
    (ops : List Operation) :
    (run.settledBy ops).Nodup ∧
    ∀ k r w a output taskErr now,
      (run.applyAll ops).settles (.completeTaskAttempt k r w a output taskErr now) = [] ∨
          a ∈ run.settledBy ops ∨
          (∀ t, (run.applyAll ops).tasks.get? k = some t → t.taskRunID ≠ r ∨ t.leasedTo ≠ some w) →
        (run.applyAll ops).apply (.completeTaskAttempt k r w a output taskErr now) =
            run.applyAll ops ∧
          (run.applyAll ops).completeTaskAttempt k r w a output taskErr now =
            if (run.applyAll ops).tasks.contains k then .ok (run.applyAll ops, .ignored)
            else .error (.unknownTaskRun (run.applyAll ops).id k) := by
  have hc := hrun.coherent
  refine ⟨(settledBy_nodup hc ops).1, fun k r w a output taskErr now h => ?_⟩
  have hc' := hc.applyAll ops
  have hsettled := settledBy_settled hc ops a
  generalize run.applyAll ops = run' at h hc' hsettled ⊢
  rcases completeTaskAttempt_cases run' k r w a output taskErr now with
    ⟨hnone, he⟩ | ⟨t, ht, ⟨-, he⟩ | ⟨hru, he⟩⟩
  · simp [WorkflowRun.apply, he, KeyMap.contains, hnone, Except.map, WorkflowRun.orElse]
  · simp [WorkflowRun.apply, he, KeyMap.contains, ht, Except.map, WorkflowRun.orElse]
  · -- a completion that is not ignored is for a live attempt, from its lease holder
    obtain ⟨hr, hid, ha, l, hl, -, hw⟩ := runsUnder_running hru
    exfalso
    rcases h with hnil | hmem | hwrong
    · simp only [WorkflowRun.settles, he] at hnil
      split at hnil
      · rename_i hout
        exact (complete_outcome t _ output taskErr _).1 (Prod.ext_iff.mp (Except.ok.inj hout)).2
      · cases hnil
      · rename_i hout
        cases hout
    · exact (hsettled hmem).not_live hc' ⟨k, t, ht, hr, ha⟩
    · rcases hwrong t ht with h1 | h1
      · exact h1 hid
      · exact h1 (by simp [TaskRun.leasedTo, hl, hw])

/-- The first task of the sample is made ready, started by a worker and completed. -/
def sampleHistory : List Operation := [
  .startWorkflow 1, .markNewReady fun _ => 1, .startTaskAttempt (ascii "a") (ascii "worker") 10 2,
  .completeTaskAttempt (ascii "a") (taskRunIDFor (ascii "r") (ascii "a")) (ascii "worker")
    (attemptIDFor (taskRunIDFor (ascii "r") (ascii "a")) 1) [] none 3]

theorem sample_attempt_settled_once : ∃ run,
    newWorkflowRun (ascii "r") sampleDefinition 1 = .ok run ∧
      run.settledBy sampleHistory = [attemptIDFor (taskRunIDFor (ascii "r") (ascii "a")) 1] ∧
      (run.settledBy sampleHistory).Nodup :=
  ⟨_, rfl, by decide +kernel,
    (attempt_settled_at_most_once (.inl ⟨ascii "r", sampleDefinition, 1, rfl⟩) sampleHistory).1⟩

/-- A second completion with a settled attempt ID, addressed to a task the run
does not have, is reported as an error and not as ignored. -/
theorem completion_for_unknown_task_not_ignored : ∃ run,
    newWorkflowRun (ascii "r") sampleDefinition 1 = .ok run ∧
      attemptIDFor (taskRunIDFor (ascii "r") (ascii "a")) 1 ∈ run.settledBy sampleHistory ∧
      (run.applyAll sampleHistory).completeTaskAttempt (ascii "z")
          (taskRunIDFor (ascii "r") (ascii "a")) (ascii "worker")
          (attemptIDFor (taskRunIDFor (ascii "r") (ascii "a")) 1) [] none 4 =
        .error (.unknownTaskRun (ascii "r") (ascii "z")) :=
  ⟨_, rfl, by decide +kernel, by rfl⟩

end ForgeFlow.Execution
