import ForgeFlow.Execution.Events

/-!
# Starting and taking over a run

`Execute` and `Recover` from their first call to the loop. Whatever is stored,
they keep to the contract; and a run that was loaded, restored and known is taken
to its end.
-/

namespace ForgeFlow.Execution

open ForgeFlow.Base ForgeFlow.Workflow

variable {t : TaskRun} {status : WorkflowRunStatus}

/-! ## Restored runs -/

theorem restored_frame (t : TaskRun) (runID : RunID) :
    (t.restored runID).taskID = t.taskID ∧ (t.restored runID).status = t.status ∧
      (t.restored runID).lease = t.lease := by
  rw [restored_fields]
  exact ⟨rfl, rfl, rfl⟩

theorem TaskRunValid.restored {runID : RunID} {createdAt : Int}
    (h : TaskRunValid runID createdAt t) : TaskRunValid runID createdAt (t.restored runID) := by
  have hi := h.identified
  have hattempt : ∀ hne : t.currentAttemptID ≠ [],
      (t.restored runID).currentAttemptID = t.currentAttemptID := by
    intro hne
    rw [restored_fields]
    exact if_neg fun hc => hne hc.1
  have hother : t.restored runID = { t with
      taskRunID := (t.restored runID).taskRunID
      currentAttemptID := (t.restored runID).currentAttemptID } := by
    rw [restored_fields]
  have hcount : (t.restored runID).attemptCount = t.attemptCount := by rw [hother]
  have hid := hi.attempt
  rw [hcount] at hid
  rw [hother]
  refine ⟨h.id, .inr hi.taskRun, h.status, h.attempts, fun hz => ?_, ?_, h.updated, h.running,
    h.completed, h.canceled, h.retryDeadline, fun hs => ⟨(h.retryAttempt hs).1, ?_⟩, h.noDeadline,
    fun l hl => ?_⟩
  · exact hid.trans (if_pos hz)
  · by_cases hz : t.attemptCount = 0
    · exact .inl (hid.trans (if_pos hz))
    · exact .inr (hid.trans (if_neg hz))
  · show (t.restored runID).currentAttemptID ≠ []
    rw [hattempt (h.retryAttempt hs).2]
    exact (h.retryAttempt hs).2
  · have hlease := h.lease l hl
    refine ⟨hlease.running, hlease.worker, hi.taskRun, hlease.attempt, hlease.leaseTaskRun, ?_,
      hlease.expires⟩
    refine hlease.leaseAttempt.trans (hattempt fun hnil => ?_).symm
    have hvalid := hlease.attempt
    rw [hlease.leaseAttempt, hnil] at hvalid
    exact absurd hvalid (by decide)

theorem requireDefinition_id {d : WorkflowDefinition} (hd : d.validate = .ok ()) {k : TaskID}
    (hk : k ∈ d.tasks.map TaskDefinition.id) :
    (requireDefinition (taskDefinitionsByID d) k).id = k := by
  have hids : ((d.tasks.map fun task => (task.id, task)).map Prod.fst).Nodup := by
    rw [List.map_map]
    exact (WorkflowDefinition.wellFormed_of_validate hd).ids_nodup
  obtain ⟨task, htask, rfl⟩ := List.mem_map.mp hk
  have hget : (taskDefinitionsByID d).get? task.id = some task :=
    (KeyMap.get?_ofList_iff hids _ _).mpr (List.mem_map.mpr ⟨task, htask, rfl⟩)
  rw [requireDefinition, hget]
  rfl

section

variable {s : WorkflowRunSnapshot} {d : WorkflowDefinition} {run : WorkflowRun}

theorem restoreWorkflowRun_keys (h : restoreWorkflowRun s d = .ok run) (k : TaskID) :
    (run.tasks.get? k).isSome = true ↔ k ∈ run.definition.tasks.map TaskDefinition.id := by
  obtain ⟨hv, hd, -, -, -, hrun⟩ := restoreWorkflowRun_ok h
  have hids := ((restoreWorkflowRun_ok_iff ((WorkflowRunSnapshot.validate_ok_iff s).mpr hv) hd).mp
    ⟨run, h⟩).2 k
  have hdef : run.definition = cloneDefinition d := by rw [hrun]; rfl
  rw [hdef, cloneDefinition_ids, ← hids, Option.isSome_iff_exists, List.mem_map]
  constructor
  · rintro ⟨t, ht⟩
    obtain ⟨u, hu, rfl, -⟩ := (restoreWorkflowRun_get? h).mp ht
    exact ⟨u, hu, rfl⟩
  · rintro ⟨u, hu, rfl⟩
    exact ⟨_, (restoreWorkflowRun_get? h).mpr ⟨u, hu, rfl, rfl⟩⟩

theorem restoreWorkflowRun_grounded (h : restoreWorkflowRun s d = .ok run) : Grounded run := by
  have hkeys := restoreWorkflowRun_keys h
  obtain ⟨hv, hd, -, -, -, hrun⟩ := restoreWorkflowRun_ok h
  refine ⟨by rw [hrun]; exact hv.id, fun k t ht => ?_, fun k t ht => ?_⟩
  · obtain ⟨u, hu, rfl, -⟩ := (restoreWorkflowRun_get? h).mp ht
    exact (hv.taskRuns u hu).id
  · refine requireDefinition_id ?_ ((hkeys k).mp (by rw [ht]; rfl))
    rw [hrun]
    exact (validate_clone d).mpr hd

theorem restoreWorkflowRun_leasedTo (h : restoreWorkflowRun s d = .ok run) {k : TaskID}
    {t : TaskRun} {w : WorkerID} (ht : run.tasks.get? k = some t) (hl : t.leasedTo = some w) :
    ∃ u ∈ s.tasks, u.taskID = k ∧ u.leasedTo = some w := by
  obtain ⟨u, hu, hk, rfl⟩ := (restoreWorkflowRun_get? h).mp ht
  rw [TaskRun.leasedTo, (restored_frame _ _).2.2] at hl
  exact ⟨u, hu, hk, hl⟩

theorem AggregateStatus.congr {tasks tasks' : List TaskRun}
    (h : AggregateStatus status tasks) (hback : ∀ t' ∈ tasks', ∃ t ∈ tasks, t'.status = t.status)
    (hforth : ∀ t ∈ tasks, ∃ t' ∈ tasks', t'.status = t.status) :
    AggregateStatus status tasks' := by
  have hall : ∀ P : TaskRunStatus → Prop, (∀ t ∈ tasks, P t.status) → ∀ t ∈ tasks', P t.status := by
    intro P hP t' ht'
    obtain ⟨t, ht, hs⟩ := hback t' ht'
    rw [hs]
    exact hP t ht
  cases status with
  | pending => exact hall (· = .pending) h
  | succeeded => exact hall (· = .succeeded) h
  | failed =>
    refine ⟨hall (TaskRunStatus.unfinished · = false) h.1, ?_⟩
    obtain ⟨t, ht, hs⟩ := h.2
    obtain ⟨t', ht', hst⟩ := hforth t ht
    exact ⟨t', ht', by rw [hst]; exact hs⟩
  | canceled => exact hall (fun s => s.unfinished = false ∧ s ≠ .failed) h
  | running => trivial
  | other _ => trivial

theorem restoreWorkflowRun_agrees (h : restoreWorkflowRun s d = .ok run) : StatusAgrees run := by
  obtain ⟨hv, -, -, -, -, hrun⟩ := restoreWorkflowRun_ok h
  have hstatus : run.status = s.status := by rw [hrun]; rfl
  rw [StatusAgrees, hstatus]
  refine hv.aggregate.congr (fun t' ht' => ?_) fun u hu => ?_
  · obtain ⟨k, hk⟩ := (KeyMap.mem_values_iff _ _).mp ht'
    obtain ⟨u, hu, -, rfl⟩ := (restoreWorkflowRun_get? h).mp hk
    exact ⟨u, hu, (restored_frame _ _).2.1⟩
  · exact ⟨_, mem_sortedTasks ((restoreWorkflowRun_get? h).mpr ⟨u, hu, rfl, rfl⟩),
      (restored_frame _ _).2.1⟩

/-- A run restored from a snapshot that was created after the zero time is valid. -/
theorem restoreWorkflowRun_valid (h : restoreWorkflowRun s d = .ok run) (hpos : 0 < s.createdAt) :
    ValidRun run := by
  have hc := restoreWorkflowRun_coherent h
  have hkeys := restoreWorkflowRun_keys h
  have hground := restoreWorkflowRun_grounded h
  have hagrees := restoreWorkflowRun_agrees h
  have hlease := @restoreWorkflowRun_leasedTo s d run h
  have hget := @restoreWorkflowRun_get? s d run h
  obtain ⟨hv, hd, -, -, -, rfl⟩ := restoreWorkflowRun_ok h
  have hworker : ∀ w hb, (restoredRun s d).workers.get? w = some hb ↔ ∃ x ∈ s.workers,
      (x.workerID, x) = (w, hb) := by
    intro w hb
    rw [restoredRun, KeyMap.get?_ofList_iff, List.mem_map]
    rw [List.map_map]
    exact hv.workerIDs
  refine ⟨⟨hc, hv.id, (validate_clone d).mpr hd, hkeys, hv.status, hpos, hv.updated.2,
    fun k t ht => ?_, fun w hb hw => ?_, fun k t w ht hl => ?_⟩,
    fun k k' t t' w ht ht' hl hl' => ?_, hagrees⟩
  · obtain ⟨u, hu, rfl, rfl⟩ := hget.mp ht
    exact (hv.taskRuns u hu).restored
  · obtain ⟨x, hx, heq⟩ := (hworker w hb).mp hw
    cases heq
    exact hv.workers _ hx
  · obtain ⟨u, hu, -, hul⟩ := hlease ht hl
    obtain ⟨x, hx, rfl⟩ := List.mem_map.mp
      (hv.leasedWorkers w (List.mem_filterMap.mpr ⟨u, hu, hul⟩))
    exact Option.isSome_iff_exists.mpr ⟨x, (hworker _ _).mpr ⟨x, hx, rfl⟩⟩
  · obtain ⟨u, hu, rfl, hul⟩ := hlease ht hl
    obtain ⟨u', hu', rfl, hul'⟩ := hlease ht' hl'
    rw [hv.holder_unique hu hu' hul hul']

end

/-! ## Into the loop -/

section

variable {config : EngineConfig} {runID : RunID} {g g' : Ledger} {st : Scheduler}
  {run : WorkflowRun}

/-- What a call knows before it enters the loop. -/
structure Entering (config : EngineConfig) (runID : RunID) (g : Ledger) (run : WorkflowRun) :
    Prop where
  current : Current g run
  valid : g.tidy → ValidRun run
  definition : g.definition = some run.definition
  grounded : Grounded run
  id : run.id = runID
  published : g.published = []
  jobs : g.jobs = []
  spawned : g.spawned = []
  leases : g.tidy → ∀ k t w, run.tasks.get? k = some t → t.leasedTo = some w →
    ¬Spawnable config runID w
  unfailed : ∀ k t, run.tasks.get? k = some t → t.status ≠ .failed

theorem Entering.quiet (h : Entering config runID g run) (hq : Quiet g g') :
    Entering config runID g' run where
  current := h.current.quiet hq
  valid ht := h.valid (hq.tidy ht)
  definition := hq.definition.trans h.definition
  grounded := h.grounded
  id := h.id
  published := hq.published.trans h.published
  jobs := hq.jobs.trans h.jobs
  spawned := hq.spawned.trans h.spawned
  leases ht := h.leases (hq.tidy ht)
  unfailed := h.unfailed

theorem Entering.tracked (h : Entering config runID g run) : Tracked g run :=
  h.current.tracked h.valid h.definition

theorem Entering.books (h : Entering config runID g run) (hs : run.status = .running) :
    Books config runID g run where
  tracked := h.tracked
  grounded := h.grounded
  id := h.id
  status := hs
  published := by rw [h.published]; nofun
  jobs := by rw [h.jobs]; nofun
  leases ht k t w hget hl hw := absurd hw (h.leases ht k t w hget hl)

theorem wp_spawnWorkers : ∀ (slots : List Nat) {st : Scheduler} {g : Ledger},
    (∀ slot ∈ slots, config.HasSlot slot) → Desk config runID g st → st.run.id = runID →
    (st.spawnWorkers config slots).wp (schedulerContract config runID)
      (Restaffed config runID g st) g
  | [], _, g, _, hd, _ => ⟨⟨g.spawned, g.roster, g.staff, rfl⟩, rfl, hd⟩
  | slot :: rest, st, g, hslots, hd, hid => by
    obtain ⟨hslot, hrest⟩ := List.forall_mem_cons.mp hslots
    refine Prog.wp_seq (wp_spawnWorker hd hid hslot) ?_
    rintro st₁ g₁ ⟨⟨l, roster, staff, rfl⟩, hrun, hd₁⟩
    refine Prog.wp_mono ?_ (wp_spawnWorkers rest hrest hd₁ (hrun ▸ hid))
    rintro st₂ g₂ ⟨⟨l', roster', staff', rfl⟩, hrun₂, hd₂⟩
    exact ⟨⟨l', roster', staff', rfl⟩, hrun₂.trans hrun, hd₂⟩

theorem hasSlot_of_mem {config : EngineConfig} {slot : Nat}
    (h : slot ∈ (List.range config.workerCount).map (· + 1)) : config.HasSlot slot := by
  obtain ⟨i, hi, rfl⟩ := List.mem_map.mp h
  exact ⟨Nat.le_add_left 1 i, List.mem_range.mp hi⟩

theorem mem_existingReadyTasks (hc : Coherent run) (hg : Grounded run) {task : TaskDefinition}
    (h : task ∈ existingReadyTasks run run.definition) :
    ∃ t, run.tasks.get? task.id = some t ∧ t.status = .ready := by
  obtain ⟨t, ht, rfl⟩ := List.mem_map.mp ((List.mem_insertionSort _).mp h)
  obtain ⟨hmem, hs⟩ := List.mem_filter.mp ht
  obtain ⟨k, hk⟩ := (KeyMap.mem_values_iff _ _).mp hmem
  rw [(hc.tasks k t hk).task, hg.defined k t hk]
  exact ⟨t, hk, by simpa using hs⟩

theorem markReadyLoop_none : ∀ (candidates : List TaskDefinition) (run : WorkflowRun)
    (now : Nat → Int), (markReadyLoop run candidates now).2 = .ok [] →
    (markReadyLoop run candidates now).1 = run
  | [], _, _, _ => rfl
  | task :: rest, run, now, h => by
    rcases markReadyLoop_cons run task rest now with ⟨e, -, heq⟩ | ⟨t, -, -, heq⟩ | ⟨t, -, -, heq⟩ <;>
      rw [heq] at h ⊢
    · exact markReadyLoop_none rest run now h
    · obtain ⟨more, -, hmore⟩ := map_eq_ok.mp h
      cases hmore

/-- Nothing was marked, and the run is as it was. -/
theorem markNewReady_none {completed : KeyMap TaskID Unit} {now : Nat → Int}
    (h : (markNewReady run run.definition completed now).2 = .ok []) :
    (markNewReady run run.definition completed now).1 = run := by
  unfold markNewReady at h ⊢
  split at h
  · cases h
  · exact markReadyLoop_none _ run now h

theorem wp_saveEntry (hb : Books config runID g st.run) (hd : Desk config runID g st)
    (hu : ∀ k t, st.run.tasks.get? k = some t → t.status ≠ .failed)
    {newReady : List TaskDefinition}
    (hready : ∀ task ∈ newReady, ∃ t, st.run.tasks.get? task.id = some t ∧ t.status = .ready)
    (hidle : newReady = [] → Current g st.run) (hspawned : g.spawned = []) :
    (saveEntry st newReady).wp (schedulerContract config runID)
      (Step.Holds (Scheduling config runID) Ending) g := by
  unfold saveEntry
  split
  · rename_i hnil
    exact ⟨hb, hd, hidle hnil, hu⟩
  · rename_i hne
    refine Prog.wp_seq (wp_saveRun hb.tracked _) ?_
    rintro (e | run) g' hsave
    · rw [hsave]
      refine Prog.wp_seq (wp_failRun (hb.tracked.quiet (.failed g)) hb.status (fun _ => ?_)
        (.inl hspawned) e)
        fun _ _ he => he
      obtain ⟨task, htask⟩ := List.exists_mem_of_ne_nil newReady hne
      obtain ⟨t, ht, hs⟩ := hready task htask
      exact ⟨task.id, t, ht, by rw [hs]; nofun⟩
    · obtain ⟨rfl, rfl⟩ := hsave
      exact hd.scheduling hb hu

/-- The tables at the start of `executeBrokerRun`. -/
theorem Entering.desk (h : Entering config runID g run) (handlers : KeyMap TaskID HandlerName) :
    Desk config runID g
      { run := run, handlers := handlers, completed := completedTaskIDs run, ready := ∅ } where
  completed _ := mem_completedTaskIDs h.tracked.coherent.tasks
  ready := nofun
  pending := nofun
  slots := nofun
  spawned := by rw [h.spawned]; nofun
  workers := nofun

theorem wp_executeBrokerRun (h : Entering config runID g run) (hs : run.status = .running)
    (handlers : KeyMap TaskID HandlerName) :
    (executeBrokerRun config run handlers).wp (schedulerContract config runID)
      (Step.Holds (Scheduling config runID) Ending) g := by
  have hc := h.tracked.coherent
  refine wp_call_of trivial fun nows => ?_
  obtain ⟨hd₀, hrun₀⟩ := addReadyTasks_desk (existingReadyTasks run run.definition)
    (h.desk handlers) fun task htask => mem_existingReadyTasks hc h.grounded htask
  have hb : Books config runID g (markNewReady run run.definition (completedTaskIDs run) nows).1 :=
    (h.books hs).apply (.markNewReady nows) rfl
  obtain ⟨hmarked, hready⟩ := markNewReady_marked run (completedTaskIDs run) nows
  have htotal : g.tidy → ∃ newReady,
      (markNewReady run run.definition (completedTaskIDs run) nows).2 = .ok newReady :=
    fun ht => (h.valid ht).sound.markNewReady_total nows
  have hnone := @markNewReady_none run (completedTaskIDs run) nows
  generalize hq : markNewReady run run.definition (completedTaskIDs run) nows = q at *
  obtain ⟨run', e | newReady⟩ := q
  · refine Prog.wp_seq (wp_failRun hb.tracked hb.status (fun ht => ?_) (.inl h.spawned) _)
      fun _ _ he => he
    obtain ⟨_, hok⟩ := htotal ht
    cases hok
  · dsimp only
    generalize Scheduler.addReadyTasks _ (existingReadyTasks run run.definition) = st₀ at *
    have hrun₀ : st₀.run = run := hrun₀
    subst hrun₀
    obtain ⟨hd, hrun⟩ := addReadyTasks_desk newReady (hd₀.marked hmarked) (hready newReady rfl)
    have hu : ∀ k t, run'.tasks.get? k = some t → t.status ≠ .failed := by
      intro k t ht hfail
      rcases hmarked.origin k t ht with ht | hr
      · exact h.unfailed k t ht hfail
      · rw [hfail] at hr
        cases hr
    generalize Scheduler.addReadyTasks _ newReady = st₁ at *
    have hrun : st₁.run = run' := hrun
    subst hrun
    refine Step.wp_andThen (wp_saveEntry hb hd hu (hready newReady rfl) (fun hnil => ?_)
      h.spawned) fun st₂ g₂ hst => ?_
    · subst hnil
      have hsame : st₁.run = st₀.run := hnone rfl
      rw [hsame]
      exact h.current
    · refine Prog.wp_seq (wp_spawnWorkers _ (fun _ => hasSlot_of_mem) hst.desk hst.books.id) ?_
      rintro st₃ g₃ ⟨⟨l, roster, staff, rfl⟩, hrun₃, hd₃⟩
      exact ⟨hrun₃ ▸ hst.books.respawned l roster staff,
        ⟨hd₃.completed, hd₃.ready, hd₃.pending, hd₃.slots, hd₃.spawned, hd₃.workers⟩,
        hrun₃ ▸ hst.current, hrun₃ ▸ hst.unfailed⟩

/-- Starting a pending run: the transition, and the run as it is saved then. -/
theorem Entering.started (h : Entering config runID g run) (hs : run.status = .pending)
    (now : Int) : ∃ run', run.transitionWorkflow .running now = .ok run' ∧ Tracked g run' ∧
      run'.status = .running ∧ Entering config runID (g.saved run') run'.nextVersion := by
  have hl : legalWorkflowTransition run.status .running = true := by
    rw [hs]
    rfl
  have hok := transitionWorkflow_legal hl now
  have happly : run.apply (.startWorkflow now) =
      { run with status := .running, updatedAt := run.nextTimestamp now } := by
    rw [WorkflowRun.apply, hok]
    rfl
  have htracked := h.tracked.apply (.startWorkflow now) (by rw [happly]) fun _ => trivial
  rw [happly] at htracked
  exact ⟨_, hok, htracked, rfl, htracked.saved, fun ht => (htracked.valid ht).nextVersion,
    htracked.definition, ⟨h.grounded.id, h.grounded.task, h.grounded.defined⟩, h.id,
    h.published, h.jobs, h.spawned, h.leases, h.unfailed⟩

theorem wp_startRun (h : Entering config runID g run) (hs : run.status = .pending)
    (handlers : KeyMap TaskID HandlerName) :
    (startRun config run handlers).wp (schedulerContract config runID)
      (Step.Holds (Scheduling config runID) Ending) g := by
  refine wp_call_of trivial fun contextErr => ?_
  cases contextErr with
  | some e =>
    exact Prog.wp_seq (wp_cancelRun h.tracked (.inl hs) (fun _ => h.unfailed) (.inl h.spawned) e)
      fun _ _ he => he
  | none =>
    refine wp_call_of trivial fun now => ?_
    obtain ⟨run', hok, htracked, hrunning, hentering⟩ :=
      (h.quiet (.now config runID g now)).started hs now
    simp only [hok]
    refine Prog.wp_seq (wp_saveRun htracked _) ?_
    rintro (e | run'') g' hsave
    · rw [hsave]
      exact wp_done (Ending.of_unclean (.inl h.spawned) id)
    · obtain ⟨rfl, rfl⟩ := hsave
      exact wp_executeBrokerRun hentering hrunning handlers

/-! ## Execute -/

theorem newWorkflowRun_grounded {d : WorkflowDefinition} {now : Int}
    (h : newWorkflowRun runID d now = .ok run) : Grounded run := by
  have hget := @newWorkflowRun_get? runID d now run h
  obtain ⟨hid, hd, rfl⟩ := newWorkflowRun_ok h
  refine ⟨hid, fun k t ht => ?_, fun k t ht => ?_⟩
  · obtain ⟨task, htask, rfl⟩ := List.mem_map.mp (hget.mp ht).1
    exact ((WorkflowDefinition.wellFormed_of_validate hd).tasks task htask).id_valid
  · refine requireDefinition_id ((validate_clone d).mpr hd) ?_
    rw [cloneDefinition_ids]
    exact (hget.mp ht).1

/-- The ledger a call of `Execute` begins with. -/
def Ledger.ofExecute : Ledger := { clean := False }

theorem Entering.of_new {d : WorkflowDefinition} {now : Int}
    (h : newWorkflowRun runID d now = .ok run) (hvalid : g.tidy → ValidRun run)
    (hd : g.definition = some (cloneDefinition run.definition)) (hp : g.published = [])
    (hj : g.jobs = []) (hsp : g.spawned = []) :
    Entering config runID
      { g with
        stored := some { run.snapshot with version := run.version + 1 }
        fresh := False } run.nextVersion := by
  have hc := newWorkflowRun_coherent h
  have hground := newWorkflowRun_grounded h
  have hget := @newWorkflowRun_get? runID d now run h
  have hid : run.id = runID := by
    obtain ⟨-, -, rfl⟩ := newWorkflowRun_ok h
    rfl
  refine ⟨⟨_, rfl, .of_saved hc _⟩, fun ht => (hvalid ht).nextVersion,
    hd.trans (congrArg some hc.definition), ⟨hground.id, hground.task, hground.defined⟩, hid, hp,
    hj, hsp, fun _ k t w ht hl => ?_, fun k t ht => ?_⟩
  · obtain ⟨-, rfl⟩ := hget.mp ht
    cases hl
  · obtain ⟨-, rfl⟩ := hget.mp ht
    nofun

theorem wp_execute (config : EngineConfig) (runID : RunID) (d : WorkflowDefinition) :
    (execute config runID d).wp (schedulerContract config runID)
      (Step.Holds (Scheduling config runID) Ending) .ofExecute := by
  refine wp_call_of trivial fun now => ?_
  cases hnew : newWorkflowRun runID d now with
  | error e => exact wp_done (Ending.of_unclean (.inl rfl) id)
  | ok run =>
    have hpending : run.status = .pending ∧ run.id = runID := by
      obtain ⟨-, -, rfl⟩ := newWorkflowRun_ok hnew
      exact ⟨rfl, rfl⟩
    dsimp only
    cases resolveHandlers config run.definition with
    | error e => exact wp_done (Ending.of_unclean (.inl rfl) id)
    | ok handlers =>
      refine wp_call_of trivial fun saved => ?_
      rcases saved with e | _
      · exact wp_done (Ending.of_unclean (.inl rfl) id)
      · have hvalid : ((Ledger.ofExecute.note config runID .now now).note config runID
            (.saveWorkflow run.definition) (.ok ())).tidy → ValidRun run :=
          fun ht => newWorkflowRun_valid ht.2 hnew
        refine wp_call.mpr ⟨⟨run, rfl, newWorkflowRun_coherent hnew, hpending.2, hvalid⟩, ?_⟩
        rintro (e | stored) hstored
        · exact wp_done (Ending.of_unclean (.inl rfl) id)
        · have hstored : stored = { run.snapshot with version := run.snapshot.version + 1 } := hstored
          subst hstored
          simp only [persisted_ok]
          exact wp_startRun (.of_new hnew hvalid rfl rfl rfl rfl) hpending.1 handlers

/-! ## Recover -/

theorem resolveHandlersLoop_total : ∀ (tasks : List TaskDefinition)
    (resolved : KeyMap TaskID HandlerName),
    (∀ task ∈ tasks, config.registered task.handler = true) →
    ∃ handlers, resolveHandlersLoop config tasks resolved = .ok handlers
  | [], resolved, _ => ⟨resolved, rfl⟩
  | task :: rest, resolved, h => by
    rw [resolveHandlersLoop, h task List.mem_cons_self]
    exact resolveHandlersLoop_total rest _ fun t ht => h t (List.mem_cons_of_mem _ ht)

theorem resolveHandlers_total {d : WorkflowDefinition}
    (h : ∀ task ∈ d.tasks, config.registered task.handler = true) :
    ∃ handlers, resolveHandlers config d = .ok handlers :=
  resolveHandlersLoop_total _ _ fun task ht => h task ((List.mem_insertionSort _).mp ht)

theorem wp_resumeRun {d : WorkflowDefinition} (h : Entering config runID g run)
    (hs : run.status = .running)
    (hclean : g.clean → ∀ task ∈ d.tasks, config.registered task.handler = true) :
    (resumeRun config run d).wp (schedulerContract config runID)
      (Step.Holds (Scheduling config runID) Ending) g := by
  refine wp_call_of trivial fun contextErr => ?_
  cases contextErr with
  | some e =>
    exact Prog.wp_seq (wp_cancelRun h.tracked (.inr hs) (fun _ => h.unfailed) (.inl h.spawned) e)
      fun _ _ he => he
  | none =>
    cases hresolve : resolveHandlers config d with
    | error e =>
      refine wp_done (Ending.of_unclean (.inl h.spawned) fun hc => ?_)
      obtain ⟨handlers, hok⟩ := resolveHandlers_total (hclean hc)
      rw [hresolve] at hok
      cases hok
    | ok handlers =>
      exact wp_executeBrokerRun h hs handlers

/-- What `recoveredTerminalTaskState` reports, for a run whose status agrees with
its tasks. -/
theorem recoveredTerminalTaskState_some {cause : TaskError}
    (h : recoveredTerminalTaskState run = some (status, cause)) :
    (status = .failed ∧ ∃ t ∈ run.sortedTasks, t.status = .failed) ∨
      status = .canceled ∧ (∀ t ∈ run.sortedTasks, t.status ≠ .failed) ∧
        ∃ t ∈ run.sortedTasks, t.status = .canceled := by
  unfold recoveredTerminalTaskState at h
  split at h
  · rename_i t ht
    cases h
    exact .inl ⟨rfl, t, List.mem_of_find?_eq_some ht, by simpa using List.find?_some ht⟩
  · rename_i hnone
    split at h
    · rename_i hany
      cases h
      obtain ⟨t, ht, hs⟩ := List.any_eq_true.mp hany
      exact .inr ⟨rfl, fun u hu => by simpa using List.find?_eq_none.mp hnone u hu, t, ht,
        by simpa using hs⟩
    · cases h

theorem recoveredTerminalTaskState_none (h : recoveredTerminalTaskState run = none) :
    ∀ t ∈ run.sortedTasks, t.status ≠ .failed ∧ t.status ≠ .canceled := by
  unfold recoveredTerminalTaskState at h
  split at h
  · cases h
  · rename_i hnone
    split at h
    · cases h
    · rename_i hany
      refine fun u hu => ⟨by simpa using List.find?_eq_none.mp hnone u hu, fun hs => hany ?_⟩
      exact List.any_eq_true.mpr ⟨u, hu, decide_eq_true hs⟩

theorem wp_finishRecovered (h : Tracked g run) {cause : TaskError}
    (hl : legalWorkflowTransition run.status status = true) (hterm : status.terminal = true)
    (ha : ∀ now now', (Operation.stop status (some cause) now now').Allowed run)
    (hd : g.Deserted) :
    (finishRecovered run status cause).wp (schedulerContract config runID)
      (Step.Holds (Scheduling config runID) Ending) g := by
  refine wp_call_of trivial fun now => wp_call_of trivial fun now' => ?_
  have hq := (Quiet.now config runID g now).trans (Quiet.now config runID _ now')
  obtain ⟨run', hstop, hst, htracked⟩ := (h.quiet hq).stopped status cause now now' hl
    fun _ => ha now now'
  simp only [hstop]
  refine Prog.wp_seq (wp_saveRun htracked _) ?_
  rintro (e | run'') g' hsave
  · rw [hsave]
    exact wp_done (Ending.of_unclean (hq.deserted hd) id)
  · obtain ⟨rfl, rfl⟩ := hsave
    exact wp_done (Ending.of_saved (hq.deserted hd) (by rw [hst]; exact hterm))

theorem live_status (hv : status.valid = true)
    (hlive : ¬status.terminal = true) : status = .pending ∨ status = .running := by
  cases status with
  | pending => exact .inl rfl
  | running => exact .inr rfl
  | succeeded => exact absurd rfl hlive
  | failed => exact absurd rfl hlive
  | canceled => exact absurd rfl hlive
  | other _ => cases hv

/-- A run that is not over but has a finished task is running. -/
theorem running_of_settled (hv : run.status.valid = true) (hlive : ¬run.status.terminal = true)
    (hagrees : StatusAgrees run) (ht : t ∈ run.sortedTasks)
    (hs : t.status ≠ .pending) : run.status = .running := by
  rcases live_status hv hlive with hp | hr
  · rw [StatusAgrees, hp] at hagrees
    exact absurd (hagrees t ht) hs
  · exact hr

/-- What `Recover` knows once it has loaded and restored the run. -/
structure Loaded (config : EngineConfig) (runID : RunID) (s : WorkflowRunSnapshot)
    (d : WorkflowDefinition) (g : Ledger) : Prop where
  stored : g.stored = some s
  id : s.id = runID
  usable : g.tidy → Usable config runID s
  definition : g.definition = some (cloneDefinition d)
  known : g.clean → ∀ task ∈ d.tasks, config.registered task.handler = true
  published : g.published = []
  jobs : g.jobs = []
  spawned : g.spawned = []

theorem Loaded.defined {s : WorkflowRunSnapshot} {d : WorkflowDefinition}
    (h : Loaded config runID s d g) (hr : restoreWorkflowRun s d = .ok run) :
    g.definition = some run.definition := by
  obtain ⟨-, -, -, -, -, rfl⟩ := restoreWorkflowRun_ok hr
  exact h.definition

theorem Loaded.entering {s : WorkflowRunSnapshot} {d : WorkflowDefinition}
    (h : Loaded config runID s d g) (hr : restoreWorkflowRun s d = .ok run)
    (hu : ∀ t ∈ run.sortedTasks, t.status ≠ .failed) : Entering config runID g run where
  current := ⟨s, h.stored, .of_restore hr⟩
  valid ht := restoreWorkflowRun_valid hr (h.usable ht).created
  definition := h.defined hr
  grounded := restoreWorkflowRun_grounded hr
  id := (Stored.of_restore hr).id.symm.trans h.id
  published := h.published
  jobs := h.jobs
  spawned := h.spawned
  leases ht k t w hget hl := by
    obtain ⟨u, hmem, -, hul⟩ := restoreWorkflowRun_leasedTo hr hget hl
    exact (h.usable ht).leases u hmem w hul
  unfailed k t ht := hu t (mem_sortedTasks ht)

theorem wp_recoverRun {s : WorkflowRunSnapshot} {d : WorkflowDefinition}
    (h : Loaded config runID s d g) (hr : restoreWorkflowRun s d = .ok run) :
    (recoverRun config run d).wp (schedulerContract config runID)
      (Step.Holds (Scheduling config runID) Ending) g := by
  have hstored := Stored.of_restore hr
  have hagrees := restoreWorkflowRun_agrees hr
  have hvalid : run.status.valid = true := by
    rw [← hstored.status]
    exact (restoreWorkflowRun_ok hr).1.status
  have htracked : Tracked g run := Current.tracked ⟨s, h.stored, hstored⟩
    (fun ht => restoreWorkflowRun_valid hr (h.usable ht).created) (h.defined hr)
  unfold recoverRun
  split
  · rename_i hterm
    have hended : s.status.terminal = true := hstored.status ▸ hterm
    exact wp_done ⟨.inl h.spawned, fun _ _ => ⟨s, h.stored, hended⟩,
      fun _ => ⟨s, run, h.stored, hended, rfl, hstored.status.symm⟩⟩
  · rename_i hlive
    split
    · rename_i status cause hstate
      have hget : ∀ t ∈ run.sortedTasks, ∃ k, run.tasks.get? k = some t :=
        fun t ht => (KeyMap.mem_values_iff _ _).mp ht
      rcases recoveredTerminalTaskState_some hstate with ⟨rfl, t, ht, hs⟩ | ⟨rfl, hnone, t, ht, hs⟩
      · have hrunning := running_of_settled hvalid hlive hagrees ht (by rw [hs]; nofun)
        obtain ⟨k, hk⟩ := hget t ht
        exact wp_finishRecovered htracked (by rw [hrunning]; rfl) rfl (fun _ _ =>
          ⟨by rw [hrunning]; nofun, k, t, hk, by rw [hs]; nofun⟩) (.inl h.spawned)
      · have hrunning := running_of_settled hvalid hlive hagrees ht (by rw [hs]; nofun)
        exact wp_finishRecovered htracked (by rw [hrunning]; rfl) rfl (fun _ _ k u hu =>
          hnone u (mem_sortedTasks hu)) (.inl h.spawned)
    · rename_i hnone
      have hentering := h.entering hr fun t ht => (recoveredTerminalTaskState_none hnone t ht).1
      split
      · rename_i hpending
        refine wp_call_of trivial fun now => ?_
        obtain ⟨run', hok, htracked', hrunning, hentering'⟩ :=
          (hentering.quiet (.now config runID g now)).started hpending now
        simp only [hok]
        refine Prog.wp_seq (wp_saveRun htracked' _) ?_
        rintro (e | run'') g' hsave
        · rw [hsave]
          exact wp_done (Ending.of_unclean (.inl h.spawned) id)
        · obtain ⟨rfl, rfl⟩ := hsave
          exact wp_resumeRun hentering' hrunning h.known
      · rename_i hpending
        exact wp_resumeRun hentering ((live_status hvalid hlive).resolve_left hpending) h.known

/-- The ledger a call of `Recover` begins with. -/
def Ledger.ofRecover (runID : RunID) : Ledger := { clean := validRunID runID = true }

theorem wp_recoverEngine (config : EngineConfig) (runID : RunID) :
    (recoverEngine config runID).wp (schedulerContract config runID)
      (Step.Holds (Scheduling config runID) Ending) (.ofRecover runID) := by
  unfold recoverEngine
  split
  · rename_i hid
    refine wp_done (Ending.of_unclean (.inl rfl) fun hc => ?_)
    rw [hc] at hid
    cases hid
  · refine wp_call.mpr ⟨trivial, ?_⟩
    rintro (e | _ | s) hid
    · exact wp_done (Ending.of_unclean (.inl rfl) id)
    · exact wp_done (Ending.of_unclean (.inl rfl) id)
    · refine wp_call_of trivial fun loaded => ?_
      rcases loaded with e | _ | d
      · exact wp_done (Ending.of_unclean (.inl rfl) id)
      · exact wp_done (Ending.of_unclean (.inl rfl) id)
      · dsimp only
        cases hr : restoreWorkflowRun s d with
        | error e =>
          refine wp_done (Ending.of_unclean (.inl rfl) fun hc => ?_)
          obtain ⟨-, -, s', run, hs', hok⟩ := hc
          cases hs'
          rw [hr] at hok
          cases hok
        | ok run =>
          exact wp_recoverRun ⟨rfl, hid, fun ht => ht.2, rfl, fun hc => hc.2.1, rfl, rfl, rfl⟩ hr

end

end ForgeFlow.Execution
