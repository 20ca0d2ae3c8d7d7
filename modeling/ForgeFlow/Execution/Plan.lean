import ForgeFlow.Execution.Entry
import ForgeFlow.Workflow.Topology

/-!
# What is left to do in a run

A run of a valid definition in which every pending task waits for a dependency has
something to go on with until all its tasks have succeeded. Most operations change
neither what is pending nor what has succeeded, and start nothing.
-/

namespace ForgeFlow.Execution

open ForgeFlow.Base ForgeFlow.Workflow

variable {k : TaskID} {t : TaskRun} {w : WorkerID} {now : Int} {a : AttemptID}

/-! ## What most operations leave alone -/

/-- The statuses that only marking, a success or a stop brings or takes away. -/
def TaskRunStatus.fixed : TaskRunStatus → Option TaskRunStatus
  | .ready | .running | .retryWaiting | .failed => none
  | status => some status

theorem TaskRunStatus.eq_of_fixed {status s : TaskRunStatus} (h : status.fixed = some s) :
    status = s := by
  cases status <;> cases h <;> rfl

/-- No task was marked ready, succeeded or was canceled. -/
structure Still (run run' : WorkflowRun) : Prop where
  definition : run'.definition = run.definition
  tasks : ∀ k, (run'.tasks.get? k).map (fun t => t.status.fixed) =
    (run.tasks.get? k).map fun t => t.status.fixed

/-- Every attempt that runs ran before, and nothing about it has changed. -/
def NoneStarted (run run' : WorkflowRun) : Prop :=
  ∀ k t, run'.tasks.get? k = some t → t.status = .running → run.tasks.get? k = some t

section

variable {run run' run'' : WorkflowRun}

theorem Still.trans (h : Still run run') (h' : Still run' run'') : Still run run'' :=
  ⟨h'.definition.trans h.definition, fun k => (h'.tasks k).trans (h.tasks k)⟩

theorem Still.of_map {f : TaskID → TaskRun → TaskRun} (hd : run'.definition = run.definition)
    (ht : run'.tasks = run.tasks.map f)
    (hf : ∀ k t, run.tasks.get? k = some t → (f k t).status.fixed = t.status.fixed) :
    Still run run' where
  definition := hd
  tasks k := by
    rw [ht, KeyMap.get?_map, Option.map_map]
    exact Option.map_congr fun t hget => hf k t hget

theorem Still.of_insert (t' : TaskRun) (hd : run'.definition = run.definition)
    (ht : run'.tasks = run.tasks.insert k t') (hget : run.tasks.get? k = some t)
    (hf : t'.status.fixed = t.status.fixed) : Still run run' where
  definition := hd
  tasks k' := by
    rw [ht]
    by_cases hk : k' = k
    · subst hk
      rw [KeyMap.get?_insert_self, hget, Option.map_some, Option.map_some, hf]
    · rw [KeyMap.get?_insert_ne _ _ hk]

theorem Still.status_iff (h : Still run run') {s : TaskRunStatus} (hs : s.fixed = some s)
    (k : TaskID) : (∃ t, run'.tasks.get? k = some t ∧ t.status = s) ↔
      ∃ t, run.tasks.get? k = some t ∧ t.status = s := by
  have hfixed : ∀ m : KeyMap TaskID TaskRun, (∃ t, m.get? k = some t ∧ t.status = s) ↔
      (m.get? k).map (fun t => t.status.fixed) = some (some s) := by
    intro m
    rw [Option.map_eq_some_iff]
    refine exists_congr fun t => and_congr_right fun _ => ⟨?_, TaskRunStatus.eq_of_fixed⟩
    rintro rfl
    exact hs
  rw [hfixed, hfixed, h.tasks]

theorem Still.unlocked_iff (h : Still run run') (k : TaskID) :
    run'.Unlocked k ↔ run.Unlocked k := by
  unfold WorkflowRun.Unlocked
  rw [h.definition]
  simp only [h.status_iff (s := .succeeded) rfl]

theorem NoneStarted.trans (h : NoneStarted run run') (h' : NoneStarted run' run'') :
    NoneStarted run run'' := fun k t ht hs => h k t (h' k t ht hs) hs

theorem Still.nextVersion (run : WorkflowRun) : Still run run.nextVersion := ⟨rfl, fun _ => rfl⟩

/-! ## The operations -/

theorem AttemptEnded.fixed {timestamp : Int} {t' : TaskRun} (h : AttemptEnded timestamp t t')
    (hne : t'.status ≠ .succeeded) : t'.status.fixed = none := by
  rcases h.status with ⟨hs | hs | hs, -⟩ | ⟨hs, -⟩
  · exact absurd hs hne
  all_goals
    rw [hs]
    rfl

theorem recoverExpiredLeases_still (hc : Coherent run) (now : Int) :
    Still run (run.recoverExpiredLeases now).1 := by
  refine .of_map (f := fun k t => if t.leaseExpired (run.nextTimestamp now) then
    (t.recover run.id k (run.retryPolicy k) (run.nextTimestamp now)).1 else t) rfl rfl fun k t ht => ?_
  split
  · rename_i hx
    have hi := hc.tasks k t ht
    rw [(recover_ended hi _ _).fixed (recover_report hi _ _).2.2.1, leaseExpired_running hx]
    rfl
  · rfl

theorem promoteDueRetries_still (run : WorkflowRun) (now : Int) :
    Still run (run.promoteDueRetries now).1 := by
  refine .of_map (f := fun _ t => if t.retryDue (run.nextTimestamp now) then
    t.promote (run.nextTimestamp now) else t) rfl rfl fun k t ht => ?_
  split
  · rename_i hx
    have hs : t.status = .retryWaiting := by
      simp only [TaskRun.retryDue, Bool.and_eq_true, decide_eq_true_eq] at hx
      exact hx.1
    rw [hs]
    rfl
  · rfl

theorem recordWorkerHeartbeat_still {d : Int}
    (h : run.recordWorkerHeartbeat w d now = .ok run') : Still run run' := by
  obtain ⟨-, -, rfl⟩ := recordWorkerHeartbeat_ok h
  exact .of_map rfl rfl fun k t _ => by rw [renew_status]

theorem startTaskAttempt_still {d : Int}
    (h : run.startTaskAttempt k w d now = .ok (run', a)) : Still run run' := by
  obtain ⟨-, -, t, ht, hs, rfl, rfl⟩ := startTaskAttempt_ok h
  exact .of_insert (t.startAttempt run.id k w d (run.nextTimestamp now)) rfl rfl ht
    (by rw [hs]; rfl)

/-- A completion that is not a success. -/
theorem completeTaskAttempt_still {r : TaskRunID}
    {output : GoString} {taskErr : Option TaskError} {outcome : CompletionOutcome}
    (h : run.completeTaskAttempt k r w a output taskErr now = .ok (run', outcome))
    (hne : outcome ≠ .succeeded) : Still run run' := by
  rcases completeTaskAttempt_cases run k r w a output taskErr now with
    ⟨-, heq⟩ | ⟨t, ht, ⟨-, heq⟩ | ⟨hyes, heq⟩⟩ <;> rw [heq] at h
  · cases h
  · cases h
    exact ⟨rfl, fun _ => rfl⟩
  · obtain ⟨rfl, rfl⟩ := Prod.mk.inj (Except.ok.inj h)
    refine .of_insert _ rfl rfl ht ?_
    rw [(runsUnder_running hyes).1]
    exact (complete_ended t _ _ _ _).fixed fun hs => hne ((complete_outcome t _ _ _ _).2.1.mpr hs)

theorem recoverExpiredLeases_noneStarted (hc : Coherent run) (now : Int) :
    NoneStarted run (run.recoverExpiredLeases now).1 := by
  intro k t ht hs
  rcases recovered_origin hc ht with hget | ⟨r, hr, rfl⟩
  · exact hget
  · obtain ⟨_, t', _, -, -, ht', hended, -⟩ := mem_recoveries hc hr
    rw [ht] at ht'
    cases ht'
    exact absurd hs hended.not_running

theorem promoteDueRetries_noneStarted (run : WorkflowRun) (now : Int) :
    NoneStarted run (run.promoteDueRetries now).1 := by
  intro k t ht hs
  rcases promoted_origin ht with hget | hready
  · exact hget
  · rw [hs] at hready
    cases hready

theorem MarkedReady.noneStarted (h : MarkedReady run run') : NoneStarted run run' := by
  intro k t ht hs
  rcases h.origin k t ht with hget | hready
  · exact hget
  · rw [hs] at hready
    cases hready

theorem completeTaskAttempt_noneStarted {r : TaskRunID}
    {output : GoString} {taskErr : Option TaskError} {outcome : CompletionOutcome}
    (h : run.completeTaskAttempt k r w a output taskErr now = .ok (run', outcome)) :
    NoneStarted run run' := by
  rcases completeTaskAttempt_cases run k r w a output taskErr now with
    ⟨-, heq⟩ | ⟨t, ht, ⟨-, heq⟩ | ⟨-, heq⟩⟩ <;> rw [heq] at h
  · cases h
  · cases h
    exact fun _ _ hget _ => hget
  · obtain ⟨rfl, -⟩ := Prod.mk.inj (Except.ok.inj h)
    intro k' u hu hs
    rw [KeyMap.get?_insert] at hu
    split at hu
    · cases hu
      exact absurd hs (complete_ended t _ _ _ _).not_running
    · exact hu

/-- A recovered attempt says why it ended, and is up again if it is to be retried. -/
theorem recovered_task (hc : Coherent run) {r : LeaseRecovery}
    (h : r ∈ (run.recoverExpiredLeases now).2) :
    ∃ t t', run.tasks.get? r.taskID = some t ∧ t.status = .running ∧
      (run.recoverExpiredLeases now).1.tasks.get? r.taskID = some t' ∧
      t'.error = leaseExpiredText run.id t'.taskID t'.currentAttemptID ∧
      (r.outcome = .retryScheduled → t'.status = .ready ∨ t'.status = .retryWaiting) := by
  obtain ⟨t, t', ht, hs, -, ht', hended, hne, hout⟩ := mem_recoveries hc h
  have hi := hc.tasks _ t ht
  refine ⟨t, t', ht, hs, ht', ?_, fun hretry => ?_⟩
  · have hmap : (run.recoverExpiredLeases now).1.tasks.get? r.taskID =
        (run.tasks.get? r.taskID).map fun t => if t.leaseExpired (run.nextTimestamp now) then
          (t.recover run.id r.taskID (run.retryPolicy r.taskID) (run.nextTimestamp now)).1
        else t := KeyMap.get?_map _ _ _
    rw [ht', ht, Option.map_some] at hmap
    have hx : t.leaseExpired (run.nextTimestamp now) = true := by
      by_contra hno
      rw [if_neg hno] at hmap
      cases hmap
      exact hended.not_running hs
    rw [hended.task, hended.attempt, hi.task, Option.some.inj hmap, if_pos hx, recover_eq hi]
    unfold TaskRun.retryOrFail
    dsimp only
    split
    · split <;> rfl
    · rfl
  · rcases hended.status with ⟨hst | hst | hst, -⟩ | ⟨hst, -⟩
    · exact absurd hst hne
    · exact .inl hst
    · rcases hout with ⟨-, hnf⟩ | ⟨hf, -⟩
      · exact absurd hst hnf
      · rw [hretry] at hf
        cases hf
    · exact .inr hst

/-- A task after the promotions is as before, or was promoted. -/
theorem promoted_task {t' : TaskRun} (ht : run.tasks.get? k = some t)
    (ht' : (run.promoteDueRetries now).1.tasks.get? k = some t') :
    t' = t ∨ k ∈ (run.promoteDueRetries now).2 ∧ t.status = .retryWaiting ∧
      t' = t.promote (run.nextTimestamp now) := by
  have hmap : (run.promoteDueRetries now).1.tasks.get? k = (run.tasks.get? k).map fun t =>
      if t.retryDue (run.nextTimestamp now) then t.promote (run.nextTimestamp now) else t :=
    KeyMap.get?_map _ _ _
  rw [ht, ht', Option.map_some] at hmap
  have heq := Option.some.inj hmap
  split at heq
  · rename_i hdue
    refine .inr ⟨List.mem_filterMap.mpr ⟨(k, t), (KeyMap.mem_entries_iff _ _ _).mpr ht, ?_⟩, ?_, heq⟩
    · rw [if_pos hdue]
    · simp only [TaskRun.retryDue, Bool.and_eq_true, decide_eq_true_eq] at hdue
      exact hdue.1
  · exact .inl heq

/-- A task that is ready after both sweeps was ready before, or is reported. -/
theorem swept_ready (hc : Coherent run) {now' : Int}
    (ht : ((run.recoverExpiredLeases now).1.promoteDueRetries now').1.tasks.get? k = some t)
    (hs : t.status = .ready) : run.tasks.get? k = some t ∨
      (∃ r ∈ (run.recoverExpiredLeases now).2, r.taskID = k ∧ r.outcome = .retryScheduled) ∨
      k ∈ ((run.recoverExpiredLeases now).1.promoteDueRetries now').2 := by
  obtain ⟨u, hu, -⟩ := (@promoteDueRetries_evolves (fun _ => {}) _ now').origin ht
  rcases promoted_task hu ht with rfl | ⟨hmem, -⟩
  · rcases recovered_origin hc hu with hget | ⟨r, hr, rfl⟩
    · exact .inl hget
    · refine .inr (.inl ⟨r, hr, rfl, ?_⟩)
      obtain ⟨-, t', -, -, -, ht', -, -, ⟨hout, -⟩ | ⟨-, hfailed⟩⟩ := mem_recoveries hc hr
      · exact hout
      · rw [hu] at ht'
        cases ht'
        rw [hs] at hfailed
        cases hfailed
  · exact .inr (.inr hmem)

/-- A lease that cannot be retried leaves its task failed. -/
theorem swept_failed (hc : Coherent run) {now' : Int} {r : LeaseRecovery}
    (hr : r ∈ (run.recoverExpiredLeases now).2) (hout : r.outcome ≠ .retryScheduled) :
    ∃ t, ((run.recoverExpiredLeases now).1.promoteDueRetries now').1.tasks.get? r.taskID = some t ∧
      t.status = .failed := by
  obtain ⟨-, t, -, -, -, ht, -, -, ⟨hretry, -⟩ | ⟨-, hs⟩⟩ := mem_recoveries hc hr
  · exact absurd hretry hout
  · exact ⟨t, (@promoteDueRetries_evolves (fun _ => {}) _ now').frozen ht
      (by rw [hs]; rfl), hs⟩

/-! ## Runs that can go on -/

/-- A run of a valid definition in which nothing was canceled. -/
structure Underway (run : WorkflowRun) : Prop where
  definition : run.definition.validate = .ok ()
  keys : ∀ k, (run.tasks.get? k).isSome = true ↔ k ∈ run.definition.tasks.map TaskDefinition.id
  statuses : ∀ k t s, run.tasks.get? k = some t → t.status.fixed = some s →
    s = .pending ∨ s = .succeeded

/-- Every pending task waits for another one. -/
structure Planned (run : WorkflowRun) : Prop extends Underway run where
  blocked : ∀ k t, run.tasks.get? k = some t → t.status = .pending → ¬run.Unlocked k

theorem Underway.still (h : Underway run) (hs : Still run run') : Underway run' where
  definition := hs.definition ▸ h.definition
  keys k := by
    rw [hs.definition, ← h.keys k, ← Option.isSome_map (f := fun t : TaskRun => t.status.fixed),
      hs.tasks, Option.isSome_map]
  statuses k t s ht hf := by
    have hmap := (hs.tasks k).symm.trans (congrArg _ ht)
    obtain ⟨u, hu, huf⟩ := Option.map_eq_some_iff.mp hmap
    exact h.statuses k u s hu (huf.trans hf)

theorem Planned.still (h : Planned run) (hs : Still run run') : Planned run' where
  toUnderway := h.toUnderway.still hs
  blocked k t ht hp hun := by
    obtain ⟨u, hu, hup⟩ := (hs.status_iff rfl k).mp ⟨t, ht, hp⟩
    exact h.blocked k u hu hup ((hs.unlocked_iff k).mp hun)

/-- Until all tasks have succeeded, one of them can be worked on. -/
theorem Planned.progress (h : Planned run) (hopen : ∃ k t, run.tasks.get? k = some t ∧
    t.status ≠ .succeeded) (hunfailed : ∀ k t, run.tasks.get? k = some t → t.status ≠ .failed) :
    ∃ k t, run.tasks.get? k = some t ∧
      (t.status = .ready ∨ t.status = .running ∨ t.status = .retryWaiting) := by
  obtain ⟨k, t, ht, hs⟩ := hopen
  obtain ⟨task, htask, rfl⟩ := List.mem_map.mp ((h.keys k).mp (by rw [ht]; rfl))
  -- a task that is left with none of its dependencies left is not pending
  obtain ⟨task', htask', hleft, hdeps⟩ := WorkflowDefinition.exists_unblocked h.definition
    (fun k => ¬∃ t, run.tasks.get? k = some t ∧ t.status = .succeeded)
    ⟨task, htask, by
      rintro ⟨u, hu, hus⟩
      rw [ht] at hu
      cases hu
      exact hs hus⟩
  obtain ⟨u, hu⟩ := Option.isSome_iff_exists.mp
    ((h.keys task'.id).mpr (List.mem_map.mpr ⟨task', htask', rfl⟩))
  have hunlocked : run.Unlocked task'.id := by
    intro other hother hid dep hdep
    have hids := (WorkflowDefinition.wellFormed_of_validate h.definition).ids_nodup
    rw [List.inj_on_of_nodup_map hids hother htask' hid] at hdep
    exact not_not.mp (hdeps dep hdep)
  refine ⟨task'.id, u, hu, ?_⟩
  cases hstatus : u.status with
  | ready => exact .inl rfl
  | running => exact .inr (.inl rfl)
  | retryWaiting => exact .inr (.inr rfl)
  | failed => exact absurd hstatus (hunfailed _ u hu)
  | pending => exact absurd hunlocked (h.blocked _ u hu hstatus)
  | succeeded => exact absurd ⟨u, hu, hstatus⟩ hleft
  | canceled => rcases h.statuses _ u .canceled hu (by rw [hstatus]; rfl) with hc | hc <;> cases hc
  | other text =>
    rcases h.statuses _ u (.other text) hu (by rw [hstatus]; rfl) with hc | hc <;> cases hc

/-! ## Marking tasks ready -/

/-- No candidate is pending after the loop, and what changed is reported. -/
theorem markReadyLoop_complete : ∀ (candidates : List TaskDefinition) (run : WorkflowRun)
    (now : Nat → Int) {newReady : List TaskDefinition},
    (markReadyLoop run candidates now).2 = .ok newReady →
    (∀ task ∈ candidates, ∀ t, (markReadyLoop run candidates now).1.tasks.get? task.id = some t →
      t.status ≠ .pending) ∧
    ∀ k t, (markReadyLoop run candidates now).1.tasks.get? k = some t →
      run.tasks.get? k = some t ∨ ∃ task ∈ newReady, task.id = k
  | [], run, _, _, _ => ⟨nofun, fun _ _ ht => .inl ht⟩
  | task :: rest, run, now, newReady, h => by
    rcases markReadyLoop_cons run task rest now with ⟨e, -, heq⟩ | ⟨t, ht, hp, heq⟩ |
      ⟨t, ht, hp, heq⟩ <;> rw [heq] at h ⊢
    · cases h
    · obtain ⟨hdone, horigin⟩ := markReadyLoop_complete rest run now h
      refine ⟨fun task' htask' u hu => ?_, horigin⟩
      rcases List.mem_cons.mp htask' with rfl | htask'
      · have hkept := (markReadyLoop_marked rest run now).1.kept _ t ht hp
        rw [hkept] at hu
        cases hu
        exact hp
      · exact hdone task' htask' u hu
    · obtain ⟨more, hmore, rfl⟩ := map_eq_ok.mp h
      obtain ⟨hdone, horigin⟩ := markReadyLoop_complete rest _ _ hmore
      have hself : (run.markReady task.id t (now 0)).tasks.get? task.id =
          some (t.enter run.id task.id .ready [] none (run.nextTimestamp (now 0))) :=
        KeyMap.get?_insert_self _ _ _
      refine ⟨fun task' htask' u hu => ?_, fun k u hu => ?_⟩
      · rcases List.mem_cons.mp htask' with rfl | htask'
        · rw [(markReadyLoop_marked rest _ _).1.kept _ _ hself nofun] at hu
          cases hu
          nofun
        · exact hdone task' htask' u hu
      · rcases horigin k u hu with hget | ⟨task', htask', hid⟩
        · rw [WorkflowRun.markReady, KeyMap.get?_insert] at hget
          split at hget
          · rename_i hk
            exact .inr ⟨task, List.mem_cons_self, hk.symm⟩
          · exact .inl hget
        · exact .inr ⟨task', List.mem_cons_of_mem _ htask', hid⟩

theorem MarkedReady.succeeded_iff (h : MarkedReady run run') (k : TaskID) :
    (∃ t, run'.tasks.get? k = some t ∧ t.status = .succeeded) ↔
      ∃ t, run.tasks.get? k = some t ∧ t.status = .succeeded := by
  constructor
  · rintro ⟨t, ht, hs⟩
    rcases h.origin k t ht with hget | hready
    · exact ⟨t, hget, hs⟩
    · rw [hs] at hready
      cases hready
  · rintro ⟨t, ht, hs⟩
    exact ⟨t, h.kept k t ht (by rw [hs]; nofun), hs⟩

/-- Marking succeeds, and leaves every pending task waiting for another one. -/
theorem Underway.markNewReady (h : Underway run) (hc : Coherent run) (now : Nat → Int) :
    ∃ newReady, (markNewReady run run.definition (completedTaskIDs run) now).2 = .ok newReady ∧
      Planned (Execution.markNewReady run run.definition (completedTaskIDs run) now).1 ∧
      ∀ k t, (Execution.markNewReady run run.definition (completedTaskIDs run) now).1.tasks.get? k =
        some t → run.tasks.get? k = some t ∨ ∃ task ∈ newReady, task.id = k := by
  have he := markNewReady_evolves now rfl fun k hk => (mem_completedTaskIDs hc.tasks).mp hk
  obtain ⟨candidates, newReady, heq, hmem, hok⟩ :=
    markNewReady_total hc h.definition h.keys now
  obtain ⟨hmarked, -⟩ := markReadyLoop_marked candidates run now
  obtain ⟨hdone, horigin⟩ := markReadyLoop_complete candidates run now hok
  rw [heq] at he ⊢
  refine ⟨newReady, hok, ⟨⟨he.definition ▸ h.definition, fun k => ?_, fun k t s ht hs => ?_⟩,
    fun k t ht hp hun => ?_⟩, horigin⟩
  · rw [he.definition, ← h.keys k]
    constructor
    · intro hsome
      obtain ⟨t', ht'⟩ := Option.isSome_iff_exists.mp hsome
      obtain ⟨t, ht, -⟩ := he.origin ht'
      rw [ht]
      rfl
    · intro hsome
      obtain ⟨t, ht⟩ := Option.isSome_iff_exists.mp hsome
      obtain ⟨t', ht', -⟩ := he.moves k t ht
      rw [ht']
      rfl
  · rcases hmarked.origin k t ht with hget | hready
    · exact h.statuses k t s hget hs
    · rw [hready] at hs
      cases hs
  · have hget : run.tasks.get? k = some t := by
      rcases hmarked.origin k t ht with hget | hready
      · exact hget
      · rw [hp] at hready
        cases hready
    obtain ⟨task, htask, rfl⟩ := List.mem_map.mp ((h.keys k).mp (by rw [hget]; rfl))
    refine hdone task ((hmem task).mpr ⟨htask, ?_⟩) t ht hp
    simp only [WorkflowDefinition.unlocked, Bool.and_eq_true, Bool.not_eq_true', List.all_eq_true]
    constructor
    · refine Bool.eq_false_iff.mpr fun hcontains => ?_
      obtain ⟨u, hu, hus⟩ := (mem_completedTaskIDs hc.tasks).mp hcontains
      rw [hget] at hu
      cases hu
      rw [hp] at hus
      cases hus
    · intro dep hdep
      refine (mem_completedTaskIDs hc.tasks).mpr ((hmarked.succeeded_iff dep).mp ?_)
      exact hun task (by rw [he.definition]; exact htask) rfl dep hdep

end

/-! ## Deadlines -/

/-- With no deadline at the zero time, there is one exactly when a task runs or waits
for a retry. -/
theorem deadlineScan_found (updatedAt : Int) : ∀ (tasks : List TaskRun) (deadline : Int),
    (∀ t ∈ tasks, t.status = .running → ∀ l, t.lease = some l → l.expiresAt ≠ 0) →
    (∀ t ∈ tasks, t.status = .retryWaiting → t.nextAttemptAt ≠ 0) →
    ((WorkflowRun.deadlineScan updatedAt tasks deadline).2 = true ↔ deadline ≠ 0 ∨
      ∃ t ∈ tasks, t.status = .running ∨ t.status = .retryWaiting)
  | [], deadline, _, _ => by simp [WorkflowRun.deadlineScan]
  | task :: rest, deadline, hleases, hretries => by
    have ih := fun deadline => deadlineScan_found updatedAt rest deadline
      (fun t ht => hleases t (List.mem_cons_of_mem _ ht))
      fun t ht => hretries t (List.mem_cons_of_mem _ ht)
    -- a candidate that is not the zero time is a deadline
    have hearlier : ∀ candidate : Int, candidate ≠ 0 →
        (if deadline = 0 ∨ candidate < deadline then candidate else deadline) ≠ 0 := by
      intro candidate hne
      split
      · exact hne
      · rename_i hno
        exact fun hz => hno (.inl hz)
    unfold WorkflowRun.deadlineScan
    split
    · rename_i hs hl
      exact ⟨fun _ => .inr ⟨task, List.mem_cons_self, .inl hs⟩, fun _ => rfl⟩
    · rename_i l hs hl
      have hne := hearlier _ (hleases task List.mem_cons_self hs l hl)
      simp only [ih, ne_eq, hne, not_false_eq_true, true_or, true_iff]
      exact .inr ⟨task, List.mem_cons_self, .inl hs⟩
    · rename_i hs
      have hne := hearlier _ (hretries task List.mem_cons_self hs)
      simp only [ih, ne_eq, hne, not_false_eq_true, true_or, true_iff]
      exact .inr ⟨task, List.mem_cons_self, .inr hs⟩
    · rename_i hwait hnone hsome
      have hrun : task.status ≠ .running := by
        intro hs
        cases hl : task.lease with
        | none => exact hnone hs hl
        | some l => exact hsome l hs hl
      have hretry : task.status ≠ .retryWaiting := hwait
      rw [ih, List.exists_mem_cons_iff]
      simp [hrun, hretry]

end ForgeFlow.Execution
