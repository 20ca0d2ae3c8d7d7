import ForgeFlow.Execution.Conduct

/-!
# How a scheduler handles events

The handlers of a round and the ways into the loop keep to the contract of the
conduct and to the plan, so whole rounds and whole calls do.
-/

namespace ForgeFlow.Execution

open ForgeFlow.Base ForgeFlow.Workflow

variable {k : TaskID} {t t' : TaskRun} {w : WorkerID} {d now : Int} {a : AttemptID}

section

variable {config : EngineConfig} {runID : RunID} {g g' : Conduct}
  {st st' : Scheduler} {claim : WorkerClaim}

/-! ## Claims -/

theorem conduct_sendAway (hp : Plan st g) (claim : WorkerClaim) :
    (do call (.respond claim none); return .again st : Round).wp
      (conductContract config runID)
      (Step.Holds Plan Anyhow) g :=
  Prog.wp_perform_bind.mpr ⟨trivial, fun _ _ => hp.kept (.note rfl _)⟩

theorem conduct_rejectStale (hp : Plan st g) (claim : WorkerClaim) :
    (rejectStale st claim).wp (conductContract config runID)
      (Step.Holds Plan Anyhow) g := by
  refine Prog.wp_perform_bind.mpr ⟨trivial, fun answer _ => ?_⟩
  have hp' : Plan st (g.note config runID (.nack claim.delivery) answer) :=
    hp.kept (.note rfl answer)
  rcases answer with (_ | text) | _
  · exact conduct_sendAway hp' claim
  · exact conduct_abandon _ _
  · exact conduct_sendAway hp' claim

theorem conduct_refuseDelivery (st : Scheduler) (claim : WorkerClaim) (operation : String)
    (cause : Option GoString) :
    (refuseDelivery st claim operation cause).wp (conductContract config runID)
      (Step.Holds Plan Anyhow) g := by
  refine Prog.wp_seq (inert_acknowledgeDelivery _ _).wp fun _ _ _ => ?_
  exact Prog.wp_perform_bind.mpr ⟨trivial, fun _ _ => conduct_abandon _ _⟩

theorem conduct_dropDelivery (hp : Plan st g) (claim : WorkerClaim) :
    (dropDelivery st claim).wp (conductContract config runID)
      (Step.Holds Plan Anyhow) g := by
  refine Prog.wp_seq (inert_acknowledgeDelivery _ _).wp ?_
  rintro (_ | e) g' ⟨-, hk⟩
  · exact conduct_sendAway (hp.kept hk) claim
  · exact conduct_abandon _ _

theorem startTaskAttempt_total {run : WorkflowRun}
    (hw : validIdentifier w = true) (hd : 0 < d) (ht : run.tasks.get? k = some t)
    (hs : t.status = .ready) (now : Int) : ∃ q, run.startTaskAttempt k w d now = .ok q := by
  rw [WorkflowRun.startTaskAttempt, (checkWorker_ok_iff w d).mpr ⟨hw, hd⟩]
  simp [Except.bind, ht, hs]

theorem recordWorkerHeartbeat_total (hw : validIdentifier w = true)
    (hd : 0 < d) (run : WorkflowRun) (now : Int) :
    ∃ run', run.recordWorkerHeartbeat w d now = .ok run' := by
  rw [WorkflowRun.recordWorkerHeartbeat, (checkWorker_ok_iff w d).mpr ⟨hw, hd⟩]
  exact ⟨_, rfl⟩

theorem Books.validIdentifier_spawnable {run : WorkflowRun} (h : Books config runID g.books run)
    (hw : Spawnable config runID w) : validIdentifier w = true := by
  obtain ⟨slot, n, rfl⟩ := hw
  exact validIdentifier_workerIDFor config (h.id ▸ h.grounded.id) slot n

/-- The tables after an attempt was saved and given out. -/
theorem Plan.handed (hp : Plan st g) {run : WorkflowRun}
    (hstart : st.run.startTaskAttempt k claim.workerID d now = .ok (run, a))
    (hs : Started st.run run k t t' claim.workerID a)
    (hbooks : g'.books = g.books.saved run ∧ (g'.own → g.own))
    (hvalid : run.snapshot.validate = .ok ()) (job : TaskJob) (hjob : job.request.attemptID = a)
    (active : KeyMap WorkerID Delivery) :
    Plan
      { st with
        run := run.nextVersion
        ready := st.ready.erase k
        inFlight := st.inFlight.insert a ()
        activeDeliveries := active }
      (g'.note config runID (.respond claim (some job)) ()) where
  planned := (hp.planned.still (startTaskAttempt_still hstart)).still (.nextVersion run)
  ready k' u hu hready := by
    rcases hs.origin hu with ⟨-, rfl⟩ | ⟨hk, hu⟩
    · rw [hs.running] at hready
      cases hready
    · exact (KeyMap.contains_erase _ _ _).mpr ⟨hk, hp.ready k' u hu hready⟩
  running k' u hu hrunning := by
    refine (KeyMap.contains_insert _ _ _ _).mpr ?_
    rcases hs.origin hu with ⟨-, rfl⟩ | ⟨-, hu⟩
    · exact .inl hs.attempt
    · exact .inr (hp.running k' u hu hrunning)
  leases k' u l hu hl := by
    refine ⟨not_unleased_saved hbooks.1 hu hl, fun ho hw => ?_⟩
    rcases hs.origin hu with ⟨-, rfl⟩ | ⟨-, hu⟩
    · obtain ⟨l', hl', hlw, hla⟩ := hs.lease
      rw [hl'] at hl
      cases hl
      exact ⟨(claim, job), List.mem_cons_self, hlw.symm, hjob.trans hla.symm⟩
    · have hw : l.workerID ∈ g'.books.spawned := hw
      rw [hbooks.1] at hw
      obtain ⟨q, hq, hql⟩ := (hp.leases k' u l hu hl).2 (hbooks.2 ho) hw
      refine ⟨q, List.mem_cons_of_mem _ ?_, hql⟩
      rw [hbooks.1]
      exact hq
  checked s hstored := by
    have hstored : g'.books.stored = some s := hstored
    rw [hbooks.1] at hstored
    cases hstored
    exact WorkflowRunSnapshot.validate_next hvalid

theorem conduct_leaseDelivered (h : Claiming config runID claim st g.books) (hp : Plan st g)
    (hw : claim.workerID ∈ g.books.spawned) (ht : st.run.tasks.get? k = some t)
    (hready : t.status = .ready) :
    (leaseDelivered config st claim k t).wp (conductContract config runID)
      (Step.Holds Plan Anyhow) g := by
  refine Prog.wp_perform_bind.mpr ⟨trivial, fun now _ => ?_⟩
  have hk : Kept g (g.note config runID .now now) := .note rfl now
  have hvalid : validIdentifier claim.workerID = true := by
    obtain ⟨slot, n, hid, -⟩ := h.desk.spawned _ hw
    exact h.books.validIdentifier_spawnable ⟨slot, n, hid⟩
  obtain ⟨⟨run, a⟩, hstart⟩ :=
    startTaskAttempt_total hvalid config.leaseDuration_pos ht hready now
  obtain ⟨-, t₀, t', ht₀, -, hs⟩ := startTaskAttempt_started hstart
  rw [ht] at ht₀
  cases ht₀
  have hcurrent := h.current.kept hk
  have hdrift : g.own → Drift (g.note config runID .now now) run := by
    intro ho k' u l hu hl
    rcases hs.origin hu with ⟨-, rfl⟩ | ⟨-, hu⟩
    · refine .inl (hcurrent.holds.mpr ⟨t, ?_, .inl ?_⟩)
      · rw [hs.task, (h.books.tracked.coherent.tasks k t ht).task]
        exact ht
      · rw [hs.count]
        exact Int.lt_succ _
    · exact (hp.kept hk).leases.drift hcurrent ho k' u l hu hl
  have howes : (g.note config runID .now now).owes (.saveRun run.snapshot) :=
    owes_saveRun (by rw [hs.status, h.books.status]; nofun) hdrift
  simp only [hstart]
  refine Prog.wp_seq (conduct_saveRun howes _) ?_
  rintro (e | run') g' hsave
  · exact conduct_abandon _ _
  · obtain ⟨rfl, hbooks, hsnapshot⟩ := hsave
    refine Prog.wp_perform_bind.mpr ⟨trivial, fun _ _ => ?_⟩
    exact (hp.kept hk).handed hstart hs hbooks hsnapshot _ rfl _

theorem conduct_handleClaim (h : Claiming config runID claim st g.books)
    (hp : Plan st g) (hw : claim.workerID ∈ g.books.spawned) :
    (handleClaim config st claim).wp (conductContract config runID)
      (Step.Holds Plan Anyhow) g := by
  rcases handleClaim_cases config st claim with ⟨-, heq⟩ | ⟨-, -, _, _, heq⟩ |
    ⟨_, _, -, hfits, ⟨hready, -, heq⟩ | ⟨-, -, heq⟩ | ⟨-, -, heq⟩⟩ <;> rw [heq]
  · exact conduct_rejectStale hp claim
  · exact conduct_refuseDelivery _ _ _ _
  · exact conduct_leaseDelivered h hp hw hfits.task hready
  · exact hp.restaffed ⟨rfl, rfl, rfl⟩
  · exact conduct_dropDelivery hp claim

/-! ## Heartbeats, lost workers, broker errors -/

/-- A heartbeat changes a task only in how long its worker's lease lasts. -/
theorem recordWorkerHeartbeat_task {run run' : WorkflowRun}
    (h : run.recordWorkerHeartbeat w d now = .ok run')
    (ht' : run'.tasks.get? k = some t') : ∃ t, run.tasks.get? k = some t ∧ (t' = t ∨
      ∃ l expiresAt updatedAt, t.lease = some l ∧ l.workerID = w ∧ t' = { t with
        lease := some { l with expiresAt := expiresAt }
        updatedAt := updatedAt }) := by
  obtain ⟨-, -, rfl⟩ := recordWorkerHeartbeat_ok h
  rw [KeyMap.get?_map] at ht'
  obtain ⟨t, ht, rfl⟩ := Option.map_eq_some_iff.mp ht'
  refine ⟨t, ht, ?_⟩
  rcases renew_cases t w d (run.nextTimestamp now) with heq | ⟨l, hl, -, hw, -, heq⟩
  · exact .inl heq
  · exact .inr ⟨l, _, _, hl, hw, heq⟩

/-- The tables after a heartbeat. -/
theorem Plan.renewed (hp : Plan st g) {run : WorkflowRun}
    (hbeat : st.run.recordWorkerHeartbeat w d now = .ok run) :
    Plan { st with run := run } g where
  planned := hp.planned.still (recordWorkerHeartbeat_still hbeat)
  ready k t' ht' hs := by
    obtain ⟨t, ht, rfl | ⟨l, _, _, -, -, rfl⟩⟩ := recordWorkerHeartbeat_task hbeat ht' <;>
      exact hp.ready k _ ht hs
  running k t' ht' hs := by
    obtain ⟨t, ht, rfl | ⟨l, _, _, -, -, rfl⟩⟩ := recordWorkerHeartbeat_task hbeat ht'
    · exact hp.running k _ ht hs
    · exact hp.running k t ht hs
  leases k t' l' ht' hl' := by
    obtain ⟨t, ht, rfl | ⟨l, _, _, hl, -, rfl⟩⟩ := recordWorkerHeartbeat_task hbeat ht'
    · exact hp.leases k _ l' ht hl'
    · cases hl'
      exact hp.leases k t l ht hl
  checked := hp.checked

theorem conduct_handleHeartbeat (h : Working config runID st g.books)
    (hp : Plan st g) (w : WorkerID) :
    (handleHeartbeat config st w).wp (conductContract config runID)
      (Step.Holds Plan Anyhow) g := by
  unfold handleHeartbeat
  split
  · exact hp
  · rename_i slot hslot
    have hspawned := (h.desk.workers w slot hslot).1
    obtain ⟨_, n, hid, -⟩ := h.desk.spawned w hspawned
    split
    · exact hp
    · refine Prog.wp_perform_bind.mpr ⟨trivial, fun now _ => ?_⟩
      have hk : Kept g (g.note config runID .now now) := .note rfl now
      obtain ⟨run, hbeat⟩ := recordWorkerHeartbeat_total
        (h.books.validIdentifier_spawnable ⟨_, n, hid⟩) config.leaseDuration_pos st.run now
      have hcurrent := h.current.kept hk
      have hdrift : (g.note config runID .now now).own →
          Drift (g.note config runID .now now) run := by
        intro ho k t' l' ht' hl'
        have hleases := (hp.kept hk).leases
        obtain ⟨t, ht, rfl | ⟨l, _, _, hl, hw, rfl⟩⟩ := recordWorkerHeartbeat_task hbeat ht'
        · exact hleases.drift hcurrent ho k _ l' ht hl'
        · cases hl'
          exact .inr ((hleases k t l ht hl).2 ho (hw ▸ hspawned))
      have hstatus : run.status = .running := by
        obtain ⟨-, -, rfl⟩ := recordWorkerHeartbeat_ok hbeat
        exact h.books.status
      simp only [hbeat]
      refine Prog.wp_seq (conduct_saveRun (owes_saveRun (by simp [hstatus]) hdrift) _) ?_
      rintro (e | run') g' hsave
      · exact conduct_abandon _ _
      · obtain ⟨rfl, hbooks, hvalid⟩ := hsave
        have hp' := ((hp.kept hk).renewed hbeat).saved hbooks hvalid
        cases st.activeDeliveries.get? w with
        | none => exact hp'
        | some delivery =>
          refine Prog.wp_perform_bind.mpr ⟨trivial, fun answer _ => ?_⟩
          rcases answer with e | _
          · exact conduct_abandon _ _
          · exact hp'.kept (.note rfl _)

theorem conduct_handleLost (hp : Plan st g) (w : WorkerID) (slot : Nat) :
    (handleLost config st w slot).wp (conductContract config runID)
      (Step.Holds Plan Anyhow) g := by
  unfold handleLost
  split
  · refine Prog.wp_seq (inert_replaceWorker _ w).wp fun st' g' h => ?_
    exact (hp.kept h.2).restaffed ⟨h.1.run, h.1.ready, h.1.inFlight⟩
  · exact hp

theorem conduct_handleBrokerError (hp : Plan st g) (w : WorkerID)
    (slot : Nat) (err : GoString) :
    (handleBrokerError st w slot err).wp (conductContract config runID)
      (Step.Holds Plan Anyhow) g := by
  unfold handleBrokerError
  split
  · exact hp
  · exact conduct_abandon _ _

/-! ## Results -/

/-- The plan while a result is recorded: some ready tasks have not been taken up. -/
structure Interim (more : TaskID → Prop) (st : Scheduler) (g : Conduct) : Prop where
  underway : Underway st.run
  ready : ∀ k t, st.run.tasks.get? k = some t → t.status = .ready →
    st.ready.contains k = true ∨ more k
  running : ∀ k t, st.run.tasks.get? k = some t → t.status = .running →
    st.inFlight.contains t.currentAttemptID = true
  leases : Leased g st.run
  checked : ∀ s, g.books.stored = some s → s.validate = .ok ()

section

variable {more : TaskID → Prop} {run run' : WorkflowRun} {r : BrokerTaskResult} {n : Int}
  {outcome : CompletionOutcome}

theorem Interim.kept (h : Interim more st g) (hk : Kept g g') :
    Interim more st g' where
  underway := h.underway
  ready := h.ready
  running := h.running
  leases := h.leases.kept hk
  checked s hs := h.checked s (by rw [← hk.stored]; exact hs)

/-- Once every ready task is taken up, the plan stands again. -/
theorem Interim.plan (h : Interim more st g) (hplanned : Planned st.run)
    {ready : KeyMap TaskID TaskDefinition}
    (hready : ∀ k t, st.run.tasks.get? k = some t → t.status = .ready →
      st.ready.contains k = true ∨ more k → ready.contains k = true) :
    Plan { st with ready := ready } g where
  planned := hplanned
  ready k t ht hs := hready k t ht hs (h.ready k t ht hs)
  running := h.running
  leases := h.leases
  checked := h.checked

theorem AttemptEnded.settled {timestamp : Int} (h : AttemptEnded timestamp t t')
    {s : TaskRunStatus} (hs : t'.status.fixed = some s) : s = .succeeded := by
  by_cases hsucceeded : t'.status = .succeeded
  · rw [hsucceeded] at hs
    cases hs
    rfl
  · rw [h.fixed hsucceeded] at hs
    cases hs

theorem completeTaskAttempt_underway {q : TaskRunID}
    {output : GoString} {taskErr : Option TaskError}
    (h : run.completeTaskAttempt k q w a output taskErr now = .ok (run', outcome))
    (hu : Underway run) : Underway run' := by
  rcases completeTaskAttempt_cases run k q w a output taskErr now with
    ⟨-, heq⟩ | ⟨t, ht, ⟨-, heq⟩ | ⟨-, heq⟩⟩ <;> rw [heq] at h
  · cases h
  · cases h
    exact hu
  · obtain ⟨rfl, -⟩ := Prod.mk.inj (Except.ok.inj h)
    refine ⟨hu.definition, fun k' => ?_, fun k' u s hget hs => ?_⟩
    · rw [← hu.keys k', KeyMap.get?_insert]
      split
      · rename_i hk
        rw [hk, ht]
        rfl
      · rfl
    · rw [KeyMap.get?_insert] at hget
      split at hget
      · cases hget
        exact .inr ((complete_ended t _ _ _ _).settled hs)
      · exact hu.statuses k' u s hget hs

/-- A task that a completion put up again is its own, and is to be retried. -/
theorem completeTaskAttempt_ready {q : TaskRunID} {output : GoString} {taskErr : Option TaskError}
    (h : run.completeTaskAttempt k q w a output taskErr now = .ok (run', outcome)) {k' : TaskID}
    (ht : run'.tasks.get? k' = some t) (hs : t.status = .ready) :
    run.tasks.get? k' = some t ∨ outcome = .retryScheduled ∧ k' = k := by
  rcases completeTaskAttempt_cases run k q w a output taskErr now with
    ⟨-, heq⟩ | ⟨t₀, -, ⟨-, heq⟩ | ⟨-, heq⟩⟩ <;> rw [heq] at h
  · cases h
  · cases h
    exact .inl ht
  · obtain ⟨rfl, rfl⟩ := Prod.mk.inj (Except.ok.inj h)
    rw [KeyMap.get?_insert] at ht
    split at ht
    · rename_i hk
      refine .inr ⟨?_, hk⟩
      cases ht
      obtain ⟨hne, hsucceeded, hfailed⟩ := complete_outcome t₀ (run.retryPolicy k) output taskErr
        (run.nextTimestamp now)
      rw [hs] at hsucceeded hfailed
      cases hout : (t₀.complete (run.retryPolicy k) output taskErr (run.nextTimestamp now)).2 with
      | ignored => exact absurd hout hne
      | succeeded => cases hsucceeded.mp hout
      | failed => cases hfailed.mp hout
      | retryScheduled => rfl
    · exact .inl ht

/-- The tables when a result was recorded in the run. -/
theorem Plan.concluded (hp : Plan st g) (hb : Books config runID g.books st.run)
    (hok : st.run.completeTaskAttempt r.taskID r.taskRunID r.workerID r.attemptID r.output r.err now =
      .ok (run, outcome)) (hc : Coherent run) (hr : Reported runID st.run n r)
    (hcon : Concluded r n outcome st.run run) (active : KeyMap WorkerID Delivery) :
    Interim (fun k => outcome = .retryScheduled ∧ k = r.taskID)
      { st with
        run := run
        inFlight := st.inFlight.erase r.attemptID
        activeDeliveries := active } g := by
  have hnone := completeTaskAttempt_noneStarted hok
  refine ⟨completeTaskAttempt_underway hok hp.planned.toUnderway, fun k t ht hs => ?_,
    fun k t ht hs => ?_, hp.leases.noneStarted hc hnone, hp.checked⟩
  · rcases completeTaskAttempt_ready hok ht hs with hget | hretry
    · exact .inl (hp.ready k t hget hs)
    · exact .inr hretry
  · have hget := hnone k t ht hs
    refine (KeyMap.contains_erase _ _ _).mpr ⟨fun ha => ?_, hp.running k t hget hs⟩
    -- the attempt of the result is over
    obtain ⟨u, hu, hpast⟩ := hcon.past
    have hi := hb.tracked.coherent.tasks k t hget
    rw [hi.attempt_ne_nil (hi.running hs), hr.attempt] at ha
    obtain ⟨-, rfl, rfl⟩ := attemptID_injective ha
    rw [ht] at hu
    cases hu
    rcases hpast with hlt | ⟨-, hne⟩
    · exact absurd hlt (lt_irrefl _)
    · exact hne hs

theorem conduct_saveOutcome (hp : Plan st g)
    (hs : st.run.status = .running) (hd : g.own → Drift g st.run) (operation : String) :
    (saveOutcome st operation).wp (conductContract config runID)
      (Step.Holds Plan Anyhow) g := by
  refine Prog.wp_seq (conduct_saveRun (owes_saveRun (by rw [hs]; nofun) hd) _) ?_
  rintro (e | run) g' hsave
  · exact conduct_abandon _ _
  · obtain ⟨rfl, hbooks, hvalid⟩ := hsave
    exact hp.saved hbooks hvalid

/-- The tables once the tasks a success unlocked are taken up. -/
theorem Interim.unlocked (h : Interim (fun _ => False) st g)
    (hc : Coherent st.run) {nows : Nat → Int} {run : WorkflowRun} {newReady : List TaskDefinition}
    (hmark : markNewReady st.run st.run.definition (completedTaskIDs st.run) nows =
      (run, .ok newReady)) (hc' : Coherent run) :
    Plan (({ st with run := run } : Scheduler).addReadyTasks newReady) g := by
  obtain ⟨newReady', hok, hplanned, horigin⟩ := h.underway.markNewReady hc nows
  obtain ⟨hmarked, -⟩ := markNewReady_marked st.run (completedTaskIDs st.run) nows
  rw [hmark] at hok hplanned horigin hmarked
  cases hok
  have hnone := hmarked.noneStarted
  obtain ⟨hrun, hinFlight, hready⟩ := addReady_tables TaskDefinition.id
    (fun _ task => task) newReady { st with run := run }
  refine ⟨hrun ▸ hplanned, fun k t ht hs => ?_, fun k t ht hs => ?_, ?_, h.checked⟩
  · rw [Scheduler.addReadyTasks, hrun] at ht
    refine (hready k).mpr ?_
    rcases horigin k t ht with hget | ⟨task, htask, hid⟩
    · exact .inr ((h.ready k t hget hs).resolve_right id)
    · exact .inl (List.mem_map.mpr ⟨task, htask, hid⟩)
  · rw [Scheduler.addReadyTasks, hrun] at ht
    rw [Scheduler.addReadyTasks, hinFlight]
    exact h.running k t (hnone k t ht hs) hs
  · rw [Scheduler.addReadyTasks, hrun]
    exact h.leases.noneStarted hc' hnone

theorem conduct_recordOutcome (hb : Books config runID g.books st.run)
    (hi : Interim (fun k => outcome = .retryScheduled ∧ k = r.taskID) st g)
    (hd : g.own → Drift g st.run) (hplanned : outcome ≠ .succeeded → Planned st.run)
    (hcompleted : outcome = .succeeded →
      st.completed.insert r.taskID () = completedTaskIDs st.run) :
    (recordOutcome st r outcome).wp (conductContract config runID)
      (Step.Holds Plan Anyhow) g := by
  have hc := hb.tracked.coherent
  cases outcome with
  | ignored =>
    exact hi.plan (hplanned (by simp)) fun k t _ _ hk => hk.resolve_right (by simp)
  | succeeded =>
    refine Prog.wp_perform_bind.mpr ⟨trivial, fun nows _ => ?_⟩
    have hk : Kept g (g.note config runID .nows nows) := .note rfl nows
    have hinterim : Interim (fun _ => False)
        { st with completed := st.completed.insert r.taskID () } (g.note config runID .nows nows) :=
      Interim.kept ⟨hi.underway, fun k t ht hs => .inl ((hi.ready k t ht hs).resolve_right
        (by simp)), hi.running, hi.leases, hi.checked⟩ hk
    obtain ⟨newReady, hok, -⟩ := hi.underway.markNewReady hc nows
    obtain ⟨hmarked, -⟩ := markNewReady_marked st.run (completedTaskIDs st.run) nows
    have hb' : Books config runID g.books
        (markNewReady st.run st.run.definition (completedTaskIDs st.run) nows).1 :=
      hb.apply (.markNewReady nows) rfl
    simp only [hcompleted rfl] at hinterim ⊢
    rcases hmark : markNewReady st.run st.run.definition (completedTaskIDs st.run) nows with ⟨run, q⟩
    rw [hmark] at hok hmarked hb'
    cases hok
    have hc' := hb'.tracked.coherent
    have hplan := hinterim.unlocked hc hmark hc'
    have hrun := (addReady_tables TaskDefinition.id (fun _ task => task) newReady
      ({ st with run := run, completed := completedTaskIDs st.run } : Scheduler)).1
    refine conduct_saveOutcome hplan (by rw [Scheduler.addReadyTasks, hrun]; exact hb'.status)
      (fun ho => ?_) _
    rw [Scheduler.addReadyTasks, hrun]
    exact (hd ho).noneStarted hc' hmarked.noneStarted
  | retryScheduled =>
    have hplan : Plan
        (if st.isReady r.taskID then st.addReady r.taskID (st.definitionOf r.taskID) else st) g := by
      split
      · refine hi.plan (hplanned (by simp)) fun k t _ _ hk => (KeyMap.contains_insert _ _ _ _).mpr ?_
        rcases hk with hk | ⟨-, hk⟩
        · exact .inr hk
        · exact .inl hk
      · rename_i hno
        refine hi.plan (hplanned (by simp)) fun k t ht hs hk => hk.resolve_right ?_
        rintro ⟨-, rfl⟩
        refine hno ?_
        rw [Scheduler.isReady, ht]
        exact decide_eq_true hs
    have hrun : (if st.isReady r.taskID then
        st.addReady r.taskID (st.definitionOf r.taskID) else st).run = st.run := by
      split <;> rfl
    exact conduct_saveOutcome hplan (hrun ▸ hb.status) (fun ho => hrun ▸ hd ho) _
  | failed =>
    have hplan : Plan st g :=
      hi.plan (hplanned (by simp)) fun k t _ _ hk => hk.resolve_right (by simp)
    exact conduct_saveOutcome hplan hb.status hd _

theorem conduct_settleResult (h : Filed config runID r n outcome st g.books)
    (hp : Plan st g) :
    (settleResult st r outcome).wp (conductContract config runID)
      (Step.Holds Plan Anyhow) g := by
  refine Prog.wp_seq (inert_acknowledgeDelivery _ _).wp ?_
  rintro (_ | e) g₁ ⟨-, hk₁⟩
  · refine Prog.wp_seq (inert_acknowledgePendingClaims _ _).wp ?_
    rintro (_ | e) g₂ ⟨-, hk₂⟩
    · dsimp only
      split
      · rename_i hfailed
        exact conduct_failWith h.books.tracked.coherent (.inl ⟨r.taskID, h.failed hfailed⟩) _
      · exact (hp.kept (hk₁.trans hk₂)).restaffed ⟨rfl, rfl, rfl⟩
    · exact conduct_abandon _ _
  · exact conduct_abandon _ _

theorem Reported.completes (h : Reported runID run n r) (now : Int) :
    ∃ q, run.completeTaskAttempt r.taskID r.taskRunID r.workerID r.attemptID r.output r.err now =
      .ok q := by
  obtain ⟨t, ht, -⟩ := h.given
  rcases completeTaskAttempt_cases run r.taskID r.taskRunID r.workerID r.attemptID r.output r.err
    now with ⟨hnone, -⟩ | ⟨_, -, ⟨-, heq⟩ | ⟨-, heq⟩⟩
  · rw [ht] at hnone
    cases hnone
  · exact ⟨_, heq⟩
  · exact ⟨_, heq⟩

theorem conduct_handleResult (h : Working config runID st g.books)
    (hp : Plan st g) (armed : Bool)
    (hr : ∃ p ∈ g.books.jobs, r = taskResult p.1 p.2 r.output r.err) :
    (handleResult st r).wp (conductContract config runID)
      (Step.Holds Plan Anyhow)
      (g.note config runID (.select armed) (.result r)) := by
  have hk₀ : Kept g (g.note config runID (.select armed) (.result r)) := .note rfl _
  refine Prog.wp_perform_bind.mpr ⟨trivial, fun contextErr _ => ?_⟩
  cases contextErr with
  | some e => exact conduct_cancelWith h.books.tracked.coherent e
  | none =>
    refine Prog.wp_perform_bind.mpr ⟨trivial, fun now _ => ?_⟩
    generalize hg' : Conduct.note config runID (Conduct.note config runID
      (g.note config runID (.select armed) (.result r)) .contextErr none) .now now = g'
    have hk : Kept g g' := by
      rw [← hg']
      exact (hk₀.trans (.note rfl _)).trans (.note rfl now)
    have hq := Quiet.now config runID g.books now
    have hbooks : g'.books = (g.books.note config runID .now now).took r := by
      rw [← hg']
      rfl
    have hb := h.books.quiet hq
    obtain ⟨n, hrep⟩ := hb.reported hr
    obtain ⟨⟨run, outcome⟩, hok⟩ := hrep.completes now
    have hcon := hrep.concluded hb.id hb.tracked.coherent hok
    have htook : Books config runID g'.books run := hbooks ▸ hb.took hok hcon
    have hd : Desk config runID g'.books { st with
        activeDeliveries := st.activeDeliveries.erase r.workerID
        inFlight := st.inFlight.erase r.attemptID } := by
      have hd := h.desk.quiet hq
      rw [hbooks]
      exact ⟨hd.completed, hd.ready, hd.pending, hd.slots, hd.spawned, hd.workers⟩
    have hcurrent := h.current.kept hk
    have hi := (hp.concluded h.books hok htook.tracked.coherent hrep hcon
      (st.activeDeliveries.erase r.workerID)).kept hk
    have hdrift := fun ho => ((hp.kept hk).leases.drift hcurrent ho).noneStarted
      htook.tracked.coherent (completeTaskAttempt_noneStarted hok)
    simp only [hok]
    refine Step.wp_andThen (wp_round (wp_recordOutcome htook hcon hd hcurrent h.unfailed)
      (conduct_recordOutcome htook hi hdrift
        (fun hne => hp.planned.still (completeTaskAttempt_still hok hne)) ?_))
      fun st' g'' ⟨hfiled, hp'⟩ => conduct_settleResult hfiled hp'
    rintro rfl
    exact (hcon.completed_desk hd).completed_eq htook.tracked.coherent

end

/-! ## The whole round -/

theorem conduct_selectEvent (h : Working config runID st g.books)
    (hp : Plan st g) :
    (selectEvent config st).wp (conductContract config runID)
      (Step.Holds Plan Anyhow) g := by
  refine Prog.wp_perform_bind.mpr ⟨trivial, fun event hevent => ?_⟩
  have hp' : ∀ event : SchedulerEvent, Plan st
      (g.note config runID (.select st.run.nextReliabilityDeadline.2) event) :=
    fun event => hp.kept (Kept.note (c := .select _) rfl event)
  cases event with
  | claim claim =>
    exact conduct_handleClaim (h.take st.run.nextReliabilityDeadline.2 claim) (hp' _) hevent.2
  | heartbeat w =>
    have h' : Working config runID st (g.note config runID
      (.select st.run.nextReliabilityDeadline.2) (.heartbeat w)).books := h
    exact conduct_handleHeartbeat h' (hp' (.heartbeat w)) w
  | lost w slot => exact conduct_handleLost (hp' (.lost w slot)) w slot
  | brokerError w slot err => exact conduct_handleBrokerError (hp' (.brokerError w slot err)) w slot err
  | result r => exact conduct_handleResult h hp _ hevent.1
  | timer => exact hp' .timer
  | done err => exact conduct_cancelWith h.books.tracked.coherent err

/-- What holds of a scheduler between its rounds. -/
def Conducting (config : EngineConfig) (runID : RunID) (st : Scheduler) (g : Conduct) : Prop :=
  Scheduling config runID st g.books ∧ Plan st g

theorem conduct_schedulerRound (h : Conducting config runID st g) :
    (schedulerRound config st).wp (conductContract config runID)
      (Step.Holds (Conducting config runID) Anyhow) g := by
  refine wp_round (wp_schedulerRound h.1) ?_
  rw [schedulerRound_eq]
  refine Step.wp_andThen (conduct_roundHead h.1 h.2) fun st g ⟨hw, ho⟩ => ?_
  have hgo : checkStalled st = pure (.again st) := if_neg (ho.not_stalled hw.toScheduling)
  rw [hgo]
  exact conduct_selectEvent hw ho.toPlan

end

end ForgeFlow.Execution
