import ForgeFlow.Execution.Handling

/-!
# How a call enters the loop

`Execute` and `Recover` keep to the contract of the conduct from their first call on,
and enter the loop with tables that agree with the run.
-/

namespace ForgeFlow.Execution

open ForgeFlow.Base ForgeFlow.Workflow

variable {newReady : List TaskDefinition} {s : WorkflowRunSnapshot} {d : WorkflowDefinition}

section

variable {config : EngineConfig} {runID : RunID} {g g' : Conduct}
  {st : Scheduler} {run run' : WorkflowRun}

/-! ## The tables at the start -/

theorem runningAttempts_contains (hc : Coherent run) {k : TaskID} {t : TaskRun}
    (ht : run.tasks.get? k = some t) (hs : t.status = .running) :
    (runningAttempts run).contains t.currentAttemptID = true := by
  have hi := hc.tasks k t ht
  have hne : t.currentAttemptID ≠ [] := by
    rw [hi.attempt_ne_nil (hi.running hs)]
    simp [attemptIDFor, ascii]
  rw [runningAttempts, KeyMap.contains_ofList, List.map_map]
  refine List.mem_map.mpr ⟨t, List.mem_filter.mpr ⟨mem_sortedTasks ht, ?_⟩, rfl⟩
  simp [hs, hne]

theorem ready_mem_existingReadyTasks (hc : Coherent run) (hg : Grounded run) {k : TaskID}
    {t : TaskRun} (ht : run.tasks.get? k = some t) (hs : t.status = .ready) :
    k ∈ (existingReadyTasks run run.definition).map TaskDefinition.id := by
  refine List.mem_map.mpr ⟨requireDefinition (taskDefinitionsByID run.definition) k, ?_,
    hg.defined k t ht⟩
  refine (List.mem_insertionSort _).mpr (List.mem_map.mpr ⟨t, ?_, by rw [(hc.tasks k t ht).task]⟩)
  exact List.mem_filter.mpr ⟨mem_sortedTasks ht, decide_eq_true hs⟩

/-- When the loop has marked something, a pending task became ready. -/
theorem markReadyLoop_releases : ∀ (candidates : List TaskDefinition) (run : WorkflowRun)
    (now : Nat → Int) {newReady : List TaskDefinition},
    (markReadyLoop run candidates now).2 = .ok newReady → newReady ≠ [] →
    ∃ k t t', run.tasks.get? k = some t ∧ t.status = .pending ∧
      (markReadyLoop run candidates now).1.tasks.get? k = some t' ∧ t'.status = .ready
  | [], _, _, _, h, hne => by
    cases h
    exact absurd rfl hne
  | task :: rest, run, now, newReady, h, hne => by
    rcases markReadyLoop_cons run task rest now with ⟨e, -, heq⟩ | ⟨t, -, -, heq⟩ |
      ⟨t, ht, hp, heq⟩ <;> rw [heq] at h ⊢
    · cases h
    · exact markReadyLoop_releases rest run now h hne
    · have hget : (run.markReady task.id t (now 0)).tasks.get? task.id =
          some (t.enter run.id task.id .ready [] none (run.nextTimestamp (now 0))) :=
        KeyMap.get?_insert_self _ _ _
      exact ⟨task.id, t, _, ht, hp, (markReadyLoop_marked rest _ _).1.kept _ _ hget nofun, rfl⟩

theorem markNewReady_releases {nows : Nat → Int} {completed : KeyMap TaskID Unit}
    (h : markNewReady run run.definition completed nows = (run', .ok newReady))
    (hne : newReady ≠ []) : ∃ k t t', run.tasks.get? k = some t ∧ t.status = .pending ∧
      run'.tasks.get? k = some t' ∧ t'.status = .ready := by
  unfold markNewReady at h
  split at h
  · cases h
  · have hreleases := markReadyLoop_releases _ run nows (congrArg Prod.snd h) hne
    rw [h] at hreleases
    exact hreleases

/-- What a call knows of the run before it enters the loop, besides its ledger. -/
structure Boarding (run : WorkflowRun) (g : Conduct) : Prop where
  underway : Underway run
  checked : ∀ s, g.books.stored = some s → s.validate = .ok ()

theorem Boarding.kept (h : Boarding run g) (hk : Kept g g') : Boarding run g' :=
  ⟨h.underway, fun s hs => h.checked s (by rw [← hk.stored]; exact hs)⟩

/-- All leases are left over when the call starts. -/
theorem Entering.leased (h : Entering config runID g.books run) : Leased g run := by
  intro k t l ht hl
  refine ⟨fun hu => ?_, fun _ hw => ?_⟩
  · obtain ⟨s, hs, hst⟩ := h.current
    rw [← hst.tasks] at ht
    obtain ⟨u, hmem, -, rfl⟩ := taskMap_mem ht
    refine hu s hs u hmem ?_
    rw [TaskRun.leasedTo, ← (restored_frame u s.id).2.2, hl]
    rfl
  · rw [h.spawned] at hw
    cases hw

/-- The plan of a scheduler that has still to count the attempts that run. -/
def Boarded (st : Scheduler) (g : Conduct) : Prop :=
  Plan { st with inFlight := runningAttempts st.run } g

/-- The tables once the tasks that can be worked on are taken up. -/
theorem Boarding.plan (h : Boarding run g) (hc : Coherent run)
    (hg : Grounded run) {nows : Nat → Int}
    (hmark : markNewReady run run.definition (completedTaskIDs run) nows = (run', .ok newReady))
    (hc' : Coherent run') (hl : Leased g run)
    (hready₀ : ∀ k ∈ (existingReadyTasks run run.definition).map TaskDefinition.id,
      st.ready.contains k = true) :
    Boarded (({ st with run := run' } : Scheduler).addReadyTasks newReady) g := by
  obtain ⟨newReady', hok, hplanned, horigin⟩ := h.underway.markNewReady hc nows
  obtain ⟨hmarked, -⟩ := markNewReady_marked run (completedTaskIDs run) nows
  rw [hmark] at hok hplanned horigin hmarked
  cases hok
  obtain ⟨hrun, -, hready⟩ := addReady_tables TaskDefinition.id (fun _ task => task)
    newReady { st with run := run' }
  rw [← Scheduler.addReadyTasks] at hrun hready
  refine ⟨?_, fun k t ht hs => ?_, fun k t ht hs => ?_, ?_, h.checked⟩
  · rw [hrun]
    exact hplanned
  · rw [hrun] at ht
    refine (hready k).mpr ?_
    rcases horigin k t ht with hget | ⟨task, htask, hid⟩
    · exact .inr (hready₀ k (ready_mem_existingReadyTasks hc hg hget hs))
    · exact .inl (List.mem_map.mpr ⟨task, htask, hid⟩)
  · exact runningAttempts_contains (hrun ▸ hc') ht hs
  · rw [hrun]
    exact hl.noneStarted hc' hmarked.noneStarted

/-! ## Into the loop -/

theorem conduct_call {α : Type} {c : EngineCall} {f : EngineResult c → Engine α}
    {Q : α → Conduct → Prop} (howes : g.owes c)
    (h : ∀ r, g.books.expects runID c r → g.sees c r →
      (f r).wp (conductContract config runID) Q (g.note config runID c r)) :
    (call c >>= f).wp (conductContract config runID) Q g :=
  ⟨howes, fun r hr => h r hr.1 hr.2⟩

theorem Boarded.restaffed {st' : Scheduler} (h : Boarded st g) (hr : Restaffing st st') :
    Boarded st' g := by
  refine Plan.restaffed h ⟨hr.run, hr.ready, ?_⟩
  show runningAttempts st'.run = runningAttempts st.run
  rw [hr.run]

theorem conduct_saveEntry (hb : Books config runID g.books st.run)
    (hp : Boarded st g) (hd : g.own → Drift g st.run) (hstored : g.books.stored = some s)
    (hreleases : newReady ≠ [] → Releases s st.run.snapshot) :
    (saveEntry st newReady).wp (conductContract config runID)
      (Step.Holds Boarded Anyhow) g := by
  unfold saveEntry
  split
  · exact hp
  · rename_i hne
    refine Prog.wp_seq (conduct_saveRun (owes_saveRun (by rw [hb.status]; nofun) hd) _) ?_
    rintro (e | run') g' hsave
    · exact Prog.wp_seq (conduct_failRun hb.tracked.coherent
        (.inr (hsave.2 s hstored (hreleases hne))) e) fun _ _ h => h
    · obtain ⟨rfl, hbooks, hvalid⟩ := hsave
      exact Plan.saved hp hbooks hvalid

theorem conduct_executeBrokerRun (h : Entering config runID g.books run)
    (hb : Boarding run g) (hs : run.status = .running)
    (handlers : KeyMap TaskID HandlerName) :
    (executeBrokerRun config run handlers).wp (conductContract config runID)
      (Step.Holds Plan Anyhow) g := by
  have hc := h.tracked.coherent
  refine Prog.wp_perform_bind.mpr ⟨trivial, fun nows _ => ?_⟩
  have hk : Kept g (g.note config runID .nows nows) := .note rfl nows
  have hbooks : Books config runID g.books
      (markNewReady run run.definition (completedTaskIDs run) nows).1 :=
    (h.books hs).apply (.markNewReady nows) rfl
  have hc' := hbooks.tracked.coherent
  obtain ⟨hmarked, -⟩ := markNewReady_marked run (completedTaskIDs run) nows
  obtain ⟨newReady, hok, -⟩ := hb.underway.markNewReady hc nows
  rcases hmark : markNewReady run run.definition (completedTaskIDs run) nows with ⟨run', q⟩
  rw [hmark] at hbooks hc' hmarked hok
  cases hok
  obtain ⟨s, hstored, hst⟩ := (h.current : Current g.books run)
  have hreleases : newReady ≠ [] → Releases s run'.snapshot := by
    intro hne
    obtain ⟨k, t, t', ht, hp, ht', hr⟩ := markNewReady_releases hmark hne
    refine h.current.releases hc' hbooks.status (fun k t ht hfail => ?_) (fun k => ?_)
      ⟨k, t, t', ht, ht', .inl ⟨hr, .inl hp⟩⟩ hstored
    · rcases hmarked.origin k t ht with hget | hr
      · exact h.unfailed k t hget hfail
      · rw [hfail] at hr
        cases hr
    · exact (hmarked.succeeded_iff k).mp
  have hleased := h.leased.kept hk
  have hdrift := fun ho =>
    (hleased.drift (h.current.kept hk) ho).noneStarted hc' hmarked.noneStarted
  obtain ⟨-, -, hready⟩ := addReady_tables TaskDefinition.id (fun _ task => task)
    (existingReadyTasks run run.definition)
    { run := run, handlers := handlers, completed := completedTaskIDs run, ready := ∅ }
  simp only [hmark]
  rw [← Scheduler.addReadyTasks] at hready
  generalize Scheduler.addReadyTasks _ (existingReadyTasks run run.definition) = st₀ at *
  have hplan := (hb.kept hk).plan hc h.grounded hmark hc' hleased fun k hmem =>
    (hready k).mpr (.inl hmem)
  have hrun := (addReady_tables TaskDefinition.id (fun _ task => task) newReady
    { st₀ with run := run' }).1
  rw [← Scheduler.addReadyTasks] at hrun
  generalize Scheduler.addReadyTasks _ newReady = st₁ at *
  have hrun : st₁.run = run' := hrun
  subst hrun
  have hentry : Books config runID (g.note config runID .nows nows).books st₁.run := hbooks
  refine Step.wp_andThen (conduct_saveEntry hentry hplan hdrift hstored hreleases)
    fun st₂ g₂ hsaved => ?_
  refine Prog.wp_seq (inert_spawnWorkers _ st₂).wp fun st₃ g₃ hspawned => ?_
  exact Plan.kept (hsaved.restaffed hspawned.1) hspawned.2

/-- The run was started, saved and checked by the store. -/
theorem Boarding.started (h : Boarding run g) {now : Int}
    (hok : run.transitionWorkflow .running now = .ok run')
    (hbooks : g'.books = g.books.saved run') (hvalid : run'.snapshot.validate = .ok ()) :
    Boarding run'.nextVersion g' := by
  obtain ⟨-, rfl⟩ := transitionWorkflow_ok hok
  refine ⟨⟨h.underway.definition, h.underway.keys, h.underway.statuses⟩, fun s hs => ?_⟩
  rw [hbooks] at hs
  cases hs
  exact WorkflowRunSnapshot.validate_next hvalid

/-- A pending run is started and saved, and goes on as it may. -/
theorem conduct_starting (h : Entering config runID g.books run)
    (hb : Boarding run g) (hs : run.status = .pending) (now : Int)
    {operation : String} {next : WorkflowRun → Round}
    (hnext : ∀ run g, Entering config runID g.books run → Boarding run g →
      run.status = .running → (next run).wp (conductContract config runID)
        (Step.Holds Plan Anyhow) g) :
    ∃ run', run.transitionWorkflow .running now = .ok run' ∧
      (saveRun run' operation >>= fun
        | .error err => return .done ⟨some run', some err⟩
        | .ok run => next run).wp (conductContract config runID)
        (Step.Holds Plan Anyhow) g := by
  obtain ⟨run', hok, htracked, hrunning, hentering⟩ := h.started hs now
  have hdrift : g.own → Drift g run' := by
    obtain ⟨-, rfl⟩ := transitionWorkflow_ok hok
    exact h.leased.drift h.current
  refine ⟨run', hok, Prog.wp_seq (conduct_saveRun (owes_saveRun (by rw [hrunning]; nofun)
    hdrift) _) ?_⟩
  rintro (e | run'') g' hsave
  · trivial
  · obtain ⟨rfl, hbooks, hvalid⟩ := hsave
    exact hnext _ g' (hbooks.1 ▸ hentering) (hb.started hok hbooks.1 hvalid) hrunning

theorem conduct_startRun (h : Entering config runID g.books run)
    (hb : Boarding run g) (hs : run.status = .pending)
    (handlers : KeyMap TaskID HandlerName) :
    (startRun config run handlers).wp (conductContract config runID)
      (Step.Holds Plan Anyhow) g := by
  refine Prog.wp_perform_bind.mpr ⟨trivial, fun contextErr _ => ?_⟩
  cases contextErr with
  | some e => exact Prog.wp_seq (conduct_cancelRun h.tracked.coherent e) fun _ _ h => h
  | none =>
    refine Prog.wp_perform_bind.mpr ⟨trivial, fun now _ => ?_⟩
    have hk : Kept (g.note config runID .contextErr none)
        ((g.note config runID .contextErr none).note config runID .now now) := .note rfl now
    have h' := h.quiet (.now config runID g.books now)
    obtain ⟨run', hok, hrest⟩ := conduct_starting h' ((hb.kept (.note rfl _)).kept hk) hs now
      fun run g he hb hs => conduct_executeBrokerRun he hb hs handlers
    simp only [hok]
    exact hrest

/-! ## Execute -/

theorem newWorkflowRun_underway {now : Int}
    (h : newWorkflowRun runID d now = .ok run) : Underway run := by
  have hget := @newWorkflowRun_get? runID d now run h
  obtain ⟨-, hd, rfl⟩ := newWorkflowRun_ok h
  refine ⟨(validate_clone d).mpr hd, fun k => ?_, fun k t s ht hs => ?_⟩
  · rw [cloneDefinition_ids, Option.isSome_iff_exists]
    exact ⟨fun ⟨t, ht⟩ => (hget.mp ht).1, fun hk => ⟨_, hget.mpr ⟨hk, rfl⟩⟩⟩
  · obtain ⟨-, rfl⟩ := hget.mp ht
    exact .inl (TaskRunStatus.eq_of_fixed hs).symm

theorem conduct_execute (config : EngineConfig) (runID : RunID) (d : WorkflowDefinition) :
    (execute config runID d).wp (conductContract config runID)
      (Step.Holds Plan Anyhow) { books := .ofExecute } := by
  refine conduct_call trivial fun now _ _ => ?_
  cases hnew : newWorkflowRun runID d now with
  | error e => trivial
  | ok run =>
    have hpending : run.status = .pending := by
      obtain ⟨-, -, rfl⟩ := newWorkflowRun_ok hnew
      rfl
    dsimp only
    cases resolveHandlers config run.definition with
    | error e => trivial
    | ok handlers =>
      refine conduct_call trivial fun saved _ _ => ?_
      rcases saved with e | _
      · trivial
      · refine conduct_call (show run.status ≠ .failed by rw [hpending]; nofun) ?_
        rintro (e | stored) hstored hvalid
        · trivial
        · have hstored : stored = { run.snapshot with version := run.snapshot.version + 1 } := hstored
          subst hstored
          have htidy : ((Ledger.ofExecute.note config runID .now now).note config runID
              (.saveWorkflow run.definition) (.ok ())).tidy → ValidRun run :=
            fun ht => newWorkflowRun_valid ht.2 hnew
          have hunderway := newWorkflowRun_underway hnew
          have hpending' : run.nextVersion.status = .pending := hpending
          simp only [persisted_ok]
          refine conduct_startRun ?_ ?_ hpending' handlers
          · exact .of_new hnew htidy rfl rfl rfl rfl
          · refine ⟨⟨hunderway.definition, hunderway.keys, hunderway.statuses⟩, fun s hs => ?_⟩
            cases hs
            exact WorkflowRunSnapshot.validate_next hvalid

/-! ## Recover -/

theorem conduct_resumeRun (h : Entering config runID g.books run)
    (hb : Boarding run g) (hs : run.status = .running)
    (d : WorkflowDefinition) :
    (resumeRun config run d).wp (conductContract config runID)
      (Step.Holds Plan Anyhow) g := by
  refine conduct_call trivial fun contextErr _ _ => ?_
  cases contextErr with
  | some e => exact Prog.wp_seq (conduct_cancelRun h.tracked.coherent e) fun _ _ h => h
  | none =>
    cases resolveHandlers config d with
    | error e => trivial
    | ok handlers =>
      refine conduct_executeBrokerRun ?_ ?_ hs handlers
      · exact h
      · exact hb.kept (.note rfl _)

theorem conduct_finishRecovered (hc : Coherent run) {status : WorkflowRunStatus} {cause : TaskError}
    (hfail : status = .failed → ∃ k t, run.tasks.get? k = some t ∧ t.status = .failed) :
    (finishRecovered run status cause).wp (conductContract config runID)
      (Step.Holds Plan Anyhow) g := by
  refine conduct_call trivial fun now _ _ => conduct_call trivial fun now' _ _ => ?_
  rcases hstop : stopRun run status (some cause) now now' with ⟨run', e | _⟩
  · trivial
  · refine Prog.wp_seq (conduct_saveRun (owes_stopped hc hstop fun hs => .inl (hfail hs)) _) ?_
    rintro (e | run'') g' - <;> trivial

/-- A restored run whose tasks neither failed nor were canceled. -/
theorem restoreWorkflowRun_underway (hr : restoreWorkflowRun s d = .ok run)
    (hopen : ∀ t ∈ run.sortedTasks, t.status ≠ .failed ∧ t.status ≠ .canceled) :
    Underway run := by
  have hkeys := restoreWorkflowRun_keys hr
  have hget := @restoreWorkflowRun_get? s d run hr
  obtain ⟨hv, hd, -, -, -, hrun⟩ := restoreWorkflowRun_ok hr
  refine ⟨by rw [hrun]; exact (validate_clone d).mpr hd, hkeys, fun k t status ht hs => ?_⟩
  obtain ⟨u, hu, rfl, rfl⟩ := hget.mp ht
  have hvalid := (hv.taskRuns u hu).status
  have hcanceled := (hopen _ (mem_sortedTasks ht)).2
  rw [(restored_frame u s.id).2.1] at hs hcanceled
  cases hst : u.status with
  | pending =>
    rw [hst] at hs
    exact .inl (TaskRunStatus.eq_of_fixed hs).symm
  | succeeded =>
    rw [hst] at hs
    exact .inr (TaskRunStatus.eq_of_fixed hs).symm
  | canceled => exact absurd hst hcanceled
  | other _ =>
    rw [hst] at hvalid
    cases hvalid
  | _ =>
    rw [hst] at hs
    cases hs

theorem conduct_recoverRun
    (h : Loaded config runID s d g.books) (hr : restoreWorkflowRun s d = .ok run) :
    (recoverRun config run d).wp (conductContract config runID)
      (Step.Holds Plan Anyhow) g := by
  have hc := restoreWorkflowRun_coherent hr
  have hvalid := (restoreWorkflowRun_ok hr).1
  have hstatus : run.status.valid = true := by
    rw [← (Stored.of_restore hr).status]
    exact hvalid.status
  unfold recoverRun
  split
  · trivial
  · rename_i hlive
    split
    · rename_i status cause hstate
      refine conduct_finishRecovered hc fun hfailed => ?_
      rcases recoveredTerminalTaskState_some hstate with ⟨-, t, ht, hs⟩ | ⟨rfl, -⟩
      · obtain ⟨k, hk⟩ := (KeyMap.mem_values_iff _ _).mp ht
        exact ⟨k, t, hk, hs⟩
      · cases hfailed
    · rename_i hnone
      have hopen := recoveredTerminalTaskState_none hnone
      have hentering := h.entering hr fun t ht => (hopen t ht).1
      have hboarding : Boarding run g := by
        refine ⟨restoreWorkflowRun_underway hr hopen, fun s' hs' => ?_⟩
        rw [h.stored] at hs'
        cases hs'
        exact (WorkflowRunSnapshot.validate_ok_iff s).mpr hvalid
      split
      · rename_i hpending
        refine conduct_call trivial fun now _ _ => ?_
        have hentering' := hentering.quiet (.now config runID g.books now)
        obtain ⟨run', hok, hrest⟩ := conduct_starting hentering'
          (hboarding.kept (.note (c := .now) rfl now)) hpending now
          fun run g he hb hs => conduct_resumeRun he hb hs d
        simp only [hok]
        exact hrest
      · rename_i hpending
        exact conduct_resumeRun hentering hboarding
          ((live_status hstatus hlive).resolve_left hpending) d

theorem conduct_recoverEngine (config : EngineConfig) (runID : RunID) :
    (recoverEngine config runID).wp (conductContract config runID)
      (Step.Holds Plan Anyhow) { books := .ofRecover runID } := by
  unfold recoverEngine
  split
  · trivial
  · refine conduct_call not_false ?_
    rintro (e | _ | s) hid -
    · trivial
    · trivial
    · refine conduct_call trivial fun loaded _ _ => ?_
      rcases loaded with e | _ | d
      · trivial
      · trivial
      · dsimp only
        cases hr : restoreWorkflowRun s d with
        | error e => trivial
        | ok run =>
          exact conduct_recoverRun
            ⟨rfl, hid, fun ht => ht.2, rfl, fun hc => hc.2.1, rfl, rfl, rfl⟩ hr

end

end ForgeFlow.Execution
