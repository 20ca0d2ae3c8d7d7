import ForgeFlow.Api.Isolation
import ForgeFlow.Base.Counting
import ForgeFlow.Base.Precedence
import ForgeFlow.Base.Transition
import ForgeFlow.Execution.Saves

/-!
# The events tell what happened

A server stores a run when it is asked for one, and its schedulers go on from there.
Events are the differences between the snapshots stored by the server's own process. In
the order they stand in the stream they lead from the tasks as they were created to the
tasks as they are, with causes before effects.
-/

namespace ForgeFlow.Api

open ForgeFlow.Base ForgeFlow.Workflow ForgeFlow.Execution ForgeFlow.Persistence

variable {status old new : TaskRunStatus} {priority : Nat} {e : RunEvent}

/-! ## What a log should tell -/

/-- The status of each task of a snapshot. -/
def taskStatuses (s : WorkflowRunSnapshot) : KeyMap TaskID TaskRunStatus :=
  (KeyMap.ofList (s.tasks.map fun task => (task.taskID, task))).map fun _ task => task.status

/-- The statuses after an event. -/
def RunEvent.replay (statuses : KeyMap TaskID TaskRunStatus) (event : RunEvent) :
    KeyMap TaskID TaskRunStatus :=
  match event.taskStatus with
  | none => statuses
  | some status => statuses.insert event.taskID status

/-- The events are a faithful and causally ordered log of what happened to a run of
the definition between two snapshots. -/
structure FaithfulLog (d : WorkflowDefinition) (first latest : WorkflowRunSnapshot)
    (events : List RunEvent) : Prop where
  replayed : events.foldl RunEvent.replay (taskStatuses first) = taskStatuses latest
  startedOnce : (events.countP fun e => e.type = .workflowStarted) ≤ 1
  startedFirst : Preceded (fun e => e.type = .workflowStarted) (fun e => e.type = .taskReady) events
  unlocked : ∀ task ∈ d.tasks, ∀ dep ∈ task.dependencies.elems,
    Preceded (fun e => e.type = .taskSucceeded ∧ e.taskID = dep)
      (fun e => e.type = .taskReady ∧ e.taskID = task.id) events
  /-- The last event and no other, if the run has ended. -/
  completed : latest.status.terminal = true → ∃ rest e, events = rest ++ [e] ∧
    e.type = .workflowCompleted ∧ ∀ e' ∈ rest, e'.type ≠ .workflowCompleted
  uncompleted : latest.status.terminal = false → ∀ e ∈ events, e.type ≠ .workflowCompleted

/-! ## Snapshots of one run -/

/-- A snapshot that a store accepts, of a run in which tasks wait for their
dependencies. -/
structure Regular (d : WorkflowDefinition) (s : WorkflowRunSnapshot) : Prop where
  valid : ValidSnapshot s
  unlocked : ∀ task ∈ d.tasks, ∀ status, (taskStatuses s).get? task.id = some status →
    status.released = true → ∀ dep ∈ task.dependencies.elems,
      (taskStatuses s).get? dep = some .succeeded

/-- The second snapshot shows the run further on. -/
structure Succeeds (previous current : WorkflowRunSnapshot) : Prop where
  id : current.id = previous.id
  status : previous.status.Forward current.status
  tasks : ∀ k old, (taskStatuses previous).get? k = some old →
    ∃ new, (taskStatuses current).get? k = some new ∧ old.Forward new
  noNew : ∀ k, (taskStatuses previous).get? k = none → (taskStatuses current).get? k = none

theorem Succeeds.trans {a b c : WorkflowRunSnapshot} (h : Succeeds a b) (h' : Succeeds b c) :
    Succeeds a c where
  id := h'.id.trans h.id
  status := h.status.trans h'.status
  tasks k old hold := by
    obtain ⟨mid, hmid, hforward⟩ := h.tasks k old hold
    obtain ⟨new, hnew, hforward'⟩ := h'.tasks k mid hmid
    exact ⟨new, hnew, hforward.trans hforward'⟩
  noNew k hnone := h'.noNew k (h.noNew k hnone)

section

variable {d : WorkflowDefinition} {s previous current : WorkflowRunSnapshot} {k : TaskID}

theorem task_of_status (h : (taskStatuses s).get? k = some status) :
    ∃ task ∈ s.tasks, task.taskID = k ∧ task.status = status := by
  rw [taskStatuses, KeyMap.get?_map] at h
  obtain ⟨task, hget, hstatus⟩ := Option.map_eq_some_iff.mp h
  obtain ⟨task', hmem, heq⟩ := List.mem_map.mp (KeyMap.mem_of_get?_ofList hget)
  cases heq
  exact ⟨task, hmem, rfl, hstatus⟩

theorem status_of_task (hn : (s.tasks.map TaskRun.taskID).Nodup) {task : TaskRun}
    (h : task ∈ s.tasks) : (taskStatuses s).get? task.taskID = some task.status := by
  have hfst : ((s.tasks.map fun task => (task.taskID, task)).map Prod.fst).Nodup := by
    rw [List.map_map]
    exact hn
  rw [taskStatuses, KeyMap.get?_map, (KeyMap.get?_ofList_iff hfst task.taskID task).mpr
    (List.mem_map.mpr ⟨task, h, rfl⟩)]
  rfl

namespace Regular

theorem pending (h : Regular d s) (hs : s.status = .pending)
    (hk : (taskStatuses s).get? k = some status) : status = .pending := by
  obtain ⟨task, htask, -, rfl⟩ := task_of_status hk
  have hall := h.valid.aggregate
  rw [hs] at hall
  exact hall task htask

theorem ended (h : Regular d s) (hs : s.status.terminal = true)
    (hk : (taskStatuses s).get? k = some status) : status.terminal = true := by
  obtain ⟨task, htask, -, rfl⟩ := task_of_status hk
  have hall := h.valid.aggregate
  have hfinished : ∀ t ∈ s.tasks, t.status.unfinished = false → t.status.terminal = true :=
    fun t ht hf => terminal_of_finished (h.valid.taskRuns t ht).status hf
  cases hstatus : s.status with
  | pending => rw [hstatus] at hs; cases hs
  | running => rw [hstatus] at hs; cases hs
  | other _ => rw [hstatus] at hs; cases hs
  | succeeded =>
    rw [hstatus] at hall
    rw [hall task htask]
    rfl
  | failed =>
    rw [hstatus] at hall
    exact hfinished task htask (hall.1 task htask)
  | canceled =>
    rw [hstatus] at hall
    exact hfinished task htask (hall task htask).1

/-- Only a running workflow has ready tasks. -/
theorem running (h : Regular d s) (hk : (taskStatuses s).get? k = some .ready) :
    s.status = .running := by
  have hvalid := h.valid.status
  cases hstatus : s.status with
  | running => rfl
  | pending => cases h.pending hstatus hk
  | other _ => rw [hstatus] at hvalid; cases hvalid
  | succeeded => cases h.ended (by rw [hstatus]; rfl) hk
  | failed => cases h.ended (by rw [hstatus]; rfl) hk
  | canceled => cases h.ended (by rw [hstatus]; rfl) hk

end Regular

/-! ## The events of one save -/

theorem transition_cases {type : RunEventType}
    (h : taskTransitionEvent old new = some (type, priority)) :
    type ≠ .workflowStarted ∧ type ≠ .workflowCompleted ∧
      (type = .taskReady → new = .ready ∧ priority = 2) ∧
      (new = .succeeded → type = .taskSucceeded ∧ priority = 1) := by
  cases new <;> simp only [taskTransitionEvent] at h
  case ready =>
    split at h <;> cases h <;> exact ⟨nofun, nofun, by simp, nofun⟩
  all_goals cases h
  all_goals exact ⟨nofun, nofun, by simp, by simp⟩

theorem exists_transition (hp : new ≠ .pending)
    (hv : new.valid = true) : ∃ q, taskTransitionEvent old new = some q := by
  cases new with
  | pending => exact absurd rfl hp
  | other _ => cases hv
  | ready =>
    rw [taskTransitionEvent]
    split <;> exact ⟨_, rfl⟩
  | _ => exact ⟨_, rfl⟩

/-- The event is of a task whose status changed, and tells the new status. -/
def TellsChange (previous current : WorkflowRunSnapshot) (priority : Nat) (e : RunEvent) : Prop :=
  ∃ old new, (taskStatuses previous).get? e.taskID = some old ∧
    (taskStatuses current).get? e.taskID = some new ∧ old ≠ new ∧ e.taskStatus = some new ∧
    taskTransitionEvent old new = some (e.type, priority)

theorem taskEvents_tell (hn : (current.tasks.map TaskRun.taskID).Nodup) {q : Nat × RunEvent}
    (h : q ∈ taskEvents previous current) : TellsChange previous current q.1 q.2 := by
  obtain ⟨task, htask, heq⟩ := List.mem_filterMap.mp h
  split at heq
  · cases heq
  · rename_i old hold
    split at heq
    · cases heq
    · rename_i hne
      obtain ⟨⟨type, priority⟩, htransition, heq⟩ := Option.map_eq_some_iff.mp heq
      cases heq
      refine ⟨old.status, task.status, ?_, status_of_task hn htask, hne, rfl, htransition⟩
      show (taskStatuses previous).get? task.taskID = _
      rw [taskStatuses, KeyMap.get?_map, hold]
      rfl

/-- Every change makes an event. -/
theorem exists_taskEvent (hold : (taskStatuses previous).get? k = some old)
    (hnew : (taskStatuses current).get? k = some new) (hne : old ≠ new) {type : RunEventType}
    (htransition : taskTransitionEvent old new = some (type, priority)) :
    ∃ q ∈ taskEvents previous current, q.1 = priority ∧ q.2.type = type ∧ q.2.taskID = k ∧
      q.2.taskStatus = some new := by
  obtain ⟨task, htask, rfl, rfl⟩ := task_of_status hnew
  rw [taskStatuses, KeyMap.get?_map] at hold
  obtain ⟨before, hbefore, rfl⟩ := Option.map_eq_some_iff.mp hold
  refine ⟨(priority, {
    type := type
    runID := current.id
    workflowID := current.workflowID
    taskID := task.taskID
    taskStatus := some task.status
    attemptID := task.currentAttemptID
    occurredAt := task.updatedAt }), List.mem_filterMap.mpr ⟨task, htask, ?_⟩, rfl, rfl, rfl, rfl⟩
  simp only [hbefore, if_neg hne, htransition, Option.map_some]

/-- A task has one event at most. -/
theorem taskEvents_nodup (previous : WorkflowRunSnapshot)
    (hn : (current.tasks.map TaskRun.taskID).Nodup) :
    ((taskEvents previous current).map fun q => q.2.taskID).Nodup := by
  refine (map_filterMap_sublist (fun task q hq => ?_) _).nodup hn
  split at hq
  · cases hq
  · split at hq
    · cases hq
    · obtain ⟨transition, -, heq⟩ := Option.map_eq_some_iff.mp hq
      cases heq
      rfl

instance taskEventLE_total : Std.Total fun left right : Nat × RunEvent =>
    taskEventLE left right = true := by
  refine ⟨fun left right => ?_⟩
  simp only [taskEventLE, Bool.or_eq_true, Bool.and_eq_true, decide_eq_true_eq]
  rcases lt_trichotomy left.1 right.1 with h | h | h
  · exact .inl (.inl h)
  · rcases le_total left.2.taskID right.2.taskID with h' | h'
    · exact .inl (.inr ⟨h, h'⟩)
    · exact .inr (.inr ⟨h.symm, h'⟩)
  · exact .inr (.inl h)

instance taskEventLE_trans : IsTrans (Nat × RunEvent) fun left right =>
    taskEventLE left right = true := by
  refine ⟨fun a b c hab hbc => ?_⟩
  simp only [taskEventLE, Bool.or_eq_true, Bool.and_eq_true, decide_eq_true_eq] at hab hbc ⊢
  rcases hab with hab | ⟨hab, hab'⟩ <;> rcases hbc with hbc | ⟨hbc, hbc'⟩
  · exact .inl (hab.trans hbc)
  · exact .inl (hbc ▸ hab)
  · exact .inl (hab ▸ hbc)
  · exact .inr ⟨hab.trans hbc, hab'.trans hbc'⟩

/-- Task events stand in the order of their priorities. -/
theorem taskEvents_sorted (previous current : WorkflowRunSnapshot) :
    ((taskEvents previous current).insertionSort
      fun left right => taskEventLE left right = true).Pairwise
        fun left right => left.1 ≤ right.1 := by
  refine (List.pairwise_insertionSort _ _).imp fun {left right} h => ?_
  simp only [taskEventLE, Bool.or_eq_true, Bool.and_eq_true, decide_eq_true_eq] at h
  omega

theorem mem_sortedTaskEvents : e ∈ sortedTaskEvents previous current ↔
    ∃ q ∈ taskEvents previous current, q.2 = e := by
  rw [sortedTaskEvents, List.mem_map]
  simp only [List.mem_insertionSort]

theorem mem_startedEvents (h : e ∈ startedEvents previous current) :
    e = workflowEvent .workflowStarted current ∧ previous.status ≠ .running ∧
      current.status = .running := by
  unfold startedEvents at h
  split at h
  · rename_i hc
    exact ⟨List.mem_singleton.mp h, hc⟩
  · cases h

theorem mem_completedEvents (h : e ∈ completedEvents previous current) :
    e = workflowEvent .workflowCompleted current := by
  unfold completedEvents at h
  split at h
  · exact List.mem_singleton.mp h
  · cases h

theorem sortedTaskEvents_tell (hn : (current.tasks.map TaskRun.taskID).Nodup)
    (h : e ∈ sortedTaskEvents previous current) :
    ∃ priority, TellsChange previous current priority e := by
  obtain ⟨q, hq, rfl⟩ := mem_sortedTaskEvents.mp h
  exact ⟨q.1, taskEvents_tell hn hq⟩

theorem TellsChange.type (h : TellsChange previous current priority e) :
    e.type ≠ .workflowStarted ∧ e.type ≠ .workflowCompleted := by
  obtain ⟨old, new, -, -, -, -, htransition⟩ := h
  exact ⟨(transition_cases htransition).1, (transition_cases htransition).2.1⟩

/-- An event that tells of a ready task is of a task that is ready. -/
theorem TellsChange.ready (h : TellsChange previous current priority e) (he : e.type = .taskReady) :
    (taskStatuses current).get? e.taskID = some .ready ∧ priority = 2 := by
  obtain ⟨old, new, -, hnew, -, -, htransition⟩ := h
  obtain ⟨rfl, hpriority⟩ := (transition_cases htransition).2.2.1 he
  exact ⟨hnew, hpriority⟩

/-- After a run has ended nothing more is told. -/
theorem deriveRunEvents_of_ended (hp : Regular d previous) (hc : Regular d current)
    (hs : Succeeds previous current) (hended : previous.status.terminal = true) :
    current.status = previous.status ∧ deriveRunEvents previous current = [] := by
  have hstatus : current.status = previous.status := by
    rcases hs.status with heq | ⟨heq, -⟩ | ⟨heq, -⟩
    · exact heq.symm
    · rw [heq] at hended; cases hended
    · rw [heq] at hended; cases hended
  have hstarted : startedEvents previous current = [] := by
    refine if_neg ?_
    rintro ⟨hne, heq⟩
    exact hne (hstatus ▸ heq)
  have hcompleted : completedEvents previous current = [] := if_neg fun h => h.1 hstatus.symm
  have htasks : sortedTaskEvents previous current = [] := by
    refine List.eq_nil_iff_forall_not_mem.mpr fun e he => ?_
    obtain ⟨-, old, new, hold, hnew, hne, -, -⟩ := sortedTaskEvents_tell hc.valid.taskIDs he
    obtain ⟨new', hnew', hforward⟩ := hs.tasks _ old hold
    rw [hnew] at hnew'
    cases hnew'
    rcases hforward with heq | ⟨hopen, -⟩
    · exact hne heq
    · rw [hp.ended hended hold] at hopen
      cases hopen
  exact ⟨hstatus, by rw [deriveRunEvents, hstarted, htasks, hcompleted]; rfl⟩

/-! ## Replaying -/

theorem replay_reaches {target : KeyMap TaskID TaskRunStatus} (k : TaskID) :
    ∀ (events : List RunEvent) (m : KeyMap TaskID TaskRunStatus),
      (∀ e ∈ events, ∀ status, e.taskStatus = some status →
        target.get? e.taskID = some status) →
      ((∃ e ∈ events, e.taskID = k ∧ e.taskStatus ≠ none) ∨ m.get? k = target.get? k) →
      (events.foldl RunEvent.replay m).get? k = target.get? k
  | [], m, _, hk => by
    rcases hk with ⟨e, he, -⟩ | hk
    · cases he
    · exact hk
  | e :: rest, m, htold, hk => by
    obtain ⟨he, hrest⟩ := List.forall_mem_cons.mp htold
    refine replay_reaches k rest _ hrest ?_
    cases hstatus : e.taskStatus with
    | none =>
      rw [RunEvent.replay, hstatus]
      refine hk.imp_left ?_
      rintro ⟨e', he', hid, htells⟩
      rcases List.mem_cons.mp he' with rfl | he'
      · exact absurd hstatus htells
      · exact ⟨e', he', hid, htells⟩
    | some status =>
      rw [RunEvent.replay, hstatus, KeyMap.get?_insert]
      split
      · rename_i heq
        rw [heq]
        exact .inr (he status hstatus).symm
      · rename_i hne
        refine hk.imp_left ?_
        rintro ⟨e', he', hid, htells⟩
        rcases List.mem_cons.mp he' with rfl | he'
        · exact absurd hid.symm hne
        · exact ⟨e', he', hid, htells⟩

theorem replay_deriveRunEvents (hc : Regular d current) (hs : Succeeds previous current) :
    (deriveRunEvents previous current).foldl RunEvent.replay (taskStatuses previous) =
      taskStatuses current := by
  refine KeyMap.ext_get? fun k => replay_reaches k _ _ (fun e he status hstatus => ?_) ?_
  · simp only [deriveRunEvents, List.mem_append] at he
    rcases he with (he | he) | he
    · rw [(mem_startedEvents he).1] at hstatus
      cases hstatus
    · obtain ⟨-, old, new, -, hnew, -, htells, -⟩ := sortedTaskEvents_tell hc.valid.taskIDs he
      rw [htells] at hstatus
      cases hstatus
      exact hnew
    · rw [mem_completedEvents he] at hstatus
      cases hstatus
  · cases hold : (taskStatuses previous).get? k with
    | none => exact .inr (hs.noNew k hold).symm
    | some old =>
      obtain ⟨new, hnew, hforward⟩ := hs.tasks k old hold
      by_cases hne : old = new
      · exact .inr (hne ▸ hnew.symm)
      · obtain ⟨task, htask, -, hstatus⟩ := task_of_status hnew
        have hvalid : new.valid = true := hstatus ▸ (hc.valid.taskRuns task htask).status
        obtain ⟨⟨type, priority⟩, htransition⟩ :=
          exists_transition (hforward.resolve_left hne).2 hvalid
        obtain ⟨q, hq, -, -, hid, htells⟩ := exists_taskEvent hold hnew hne htransition
        refine .inl ⟨q.2, ?_, hid, by simp [htells]⟩
        simp only [deriveRunEvents, List.mem_append]
        exact .inl (.inr (mem_sortedTaskEvents.mpr ⟨q, hq, rfl⟩))

/-! ## The log grows -/

/-- A faithful log, with what is needed to add to it: what the status of the run and
of its tasks says about the events so far. -/
structure Logged (d : WorkflowDefinition) (first latest : WorkflowRunSnapshot)
    (events : List RunEvent) : Prop extends FaithfulLog d first latest events where
  unstarted : latest.status = .pending → ∀ e ∈ events, e.type ≠ .workflowStarted
  started : latest.status = .running → ∃ e ∈ events, e.type = .workflowStarted
  succeeded : ∀ k, (taskStatuses latest).get? k = some .succeeded →
    ∃ e ∈ events, e.type = .taskSucceeded ∧ e.taskID = k

theorem logged_created (h : Regular d s) (hs : s.status = .pending) : Logged d s s [] where
  replayed := rfl
  startedOnce := Nat.zero_le _
  startedFirst := preceded_of_none fun _ he => absurd he List.not_mem_nil
  unlocked _ _ _ _ := preceded_of_none fun _ he => absurd he List.not_mem_nil
  completed ht := by rw [hs] at ht; cases ht
  uncompleted _ _ he := absurd he List.not_mem_nil
  unstarted _ _ he := absurd he List.not_mem_nil
  started hr := by rw [hs] at hr; cases hr
  succeeded k hk := by cases h.pending hs hk

section

variable {first : WorkflowRunSnapshot} {events : List RunEvent}

theorem countP_startedEvents (previous : WorkflowRunSnapshot) (hc : Regular d current) :
    ((deriveRunEvents previous current).countP fun e => e.type = .workflowStarted) =
      if previous.status ≠ .running ∧ current.status = .running then 1 else 0 := by
  have htasks : ((sortedTaskEvents previous current).countP fun e =>
      e.type = .workflowStarted) = 0 := by
    refine List.countP_eq_zero.mpr fun e he => ?_
    obtain ⟨priority, htells⟩ := sortedTaskEvents_tell hc.valid.taskIDs he
    simpa using htells.type.1
  have hcompleted : ((completedEvents previous current).countP fun e =>
      e.type = .workflowStarted) = 0 := by
    refine List.countP_eq_zero.mpr fun e he => ?_
    rw [mem_completedEvents he]
    exact Bool.false_ne_true
  rw [deriveRunEvents, List.countP_append, List.countP_append, htasks, hcompleted, startedEvents]
  split <;> rfl

theorem mem_deriveRunEvents_started (hne : previous.status ≠ .running)
    (hrunning : current.status = .running) :
    workflowEvent .workflowStarted current ∈ startedEvents previous current := by
  rw [startedEvents, if_pos ⟨hne, hrunning⟩]
  exact List.mem_singleton.mpr rfl

/-- A task becomes ready after the event that the run has started. -/
theorem Logged.startedFirst_step (h : Logged d first previous events) (hc : Regular d current) :
    Preceded (fun e => e.type = .workflowStarted) (fun e => e.type = .taskReady)
      (events ++ deriveRunEvents previous current) := by
  by_cases hprevious : previous.status = .running
  · exact h.startedFirst.append_of_mem (h.started hprevious)
  · have hbefore : Preceded (fun e => e.type = .workflowStarted) (fun e => e.type = .taskReady)
        (events ++ startedEvents previous current) := by
      refine h.startedFirst.append (preceded_of_none fun e he => ?_)
      rw [(mem_startedEvents he).1]
      nofun
    rw [deriveRunEvents, List.append_assoc, ← List.append_assoc]
    by_cases hcurrent : current.status = .running
    · exact hbefore.append_of_mem ⟨_, List.mem_append_right _
        (mem_deriveRunEvents_started hprevious hcurrent), rfl⟩
    · refine hbefore.append (preceded_of_none fun e he hready => ?_)
      rcases List.mem_append.mp he with he | he
      · obtain ⟨priority, htells⟩ := sortedTaskEvents_tell hc.valid.taskIDs he
        exact hcurrent (hc.running (htells.ready hready).1)
      · rw [mem_completedEvents he] at hready
        cases hready

/-- A task becomes ready after the events that its dependencies have succeeded. -/
theorem Logged.unlocked_step (h : Logged d first previous events) (hc : Regular d current)
    (hs : Succeeds previous current) {task : TaskDefinition} (htask : task ∈ d.tasks) {dep : TaskID}
    (hdep : dep ∈ task.dependencies.elems) :
    Preceded (fun e => e.type = .taskSucceeded ∧ e.taskID = dep)
      (fun e => e.type = .taskReady ∧ e.taskID = task.id)
      (events ++ deriveRunEvents previous current) := by
  have hold := h.unlocked task htask dep hdep
  by_cases hprevious : (taskStatuses previous).get? dep = some .succeeded
  · exact hold.append_of_mem (h.succeeded dep hprevious)
  · refine hold.append (.append (.append ?_ ?_) ?_)
    · refine preceded_of_none fun e he hready => ?_
      rw [(mem_startedEvents he).1] at hready
      cases hready.1
    · -- the dependency succeeded in the same save, and successes come first
      refine preceded_map.mpr (preceded_of_pairwise (taskEvents_sorted previous current) ?_)
      rintro q hq ⟨hready, hid⟩
      have htells := taskEvents_tell hc.valid.taskIDs ((List.mem_insertionSort _).mp hq)
      obtain ⟨hstatus, hpriority⟩ := htells.ready hready
      have hdone := hc.unlocked task htask .ready (hid ▸ hstatus) rfl dep hdep
      obtain ⟨q', hq', hpriority', htype, hdep', -⟩ : ∃ q' ∈ taskEvents previous current, q'.1 = 1 ∧
          q'.2.type = .taskSucceeded ∧ q'.2.taskID = dep ∧ q'.2.taskStatus = some .succeeded := by
        cases hbefore : (taskStatuses previous).get? dep with
        | none =>
          rw [hs.noNew dep hbefore] at hdone
          cases hdone
        | some old =>
          exact exists_taskEvent hbefore hdone (fun heq => hprevious (heq ▸ hbefore)) rfl
      refine ⟨q', (List.mem_insertionSort _).mpr hq', ⟨htype, hdep'⟩, ?_, ?_⟩
      · rintro rfl
        rw [htype] at hready
        cases hready
      · omega
    · refine preceded_of_none fun e he hready => ?_
      rw [mem_completedEvents he] at hready
      cases hready.1

theorem Logged.succeeded_step (h : Logged d first previous events)
    (hs : Succeeds previous current) (hk : (taskStatuses current).get? k = some .succeeded) :
    ∃ e ∈ events ++ deriveRunEvents previous current, e.type = .taskSucceeded ∧ e.taskID = k := by
  by_cases hprevious : (taskStatuses previous).get? k = some .succeeded
  · obtain ⟨e, he, htype⟩ := h.succeeded k hprevious
    exact ⟨e, List.mem_append_left _ he, htype⟩
  · cases hbefore : (taskStatuses previous).get? k with
    | none =>
      rw [hs.noNew k hbefore] at hk
      cases hk
    | some old =>
      obtain ⟨q, hq, -, htype, hid, -⟩ :=
        exists_taskEvent hbefore hk (fun heq => hprevious (heq ▸ hbefore)) rfl
      refine ⟨q.2, List.mem_append_right _ ?_, htype, hid⟩
      simp only [deriveRunEvents, List.mem_append]
      exact .inl (.inr (mem_sortedTaskEvents.mpr ⟨q, hq, rfl⟩))

/-- Before the end of the run no event tells of it. -/
theorem uncompleted_until (previous : WorkflowRunSnapshot) (hc : Regular d current)
    (h : ∀ e ∈ events, e.type ≠ .workflowCompleted) :
    ∀ e ∈ events ++ (startedEvents previous current ++ sortedTaskEvents previous current),
      e.type ≠ .workflowCompleted := by
  intro e he
  rcases List.mem_append.mp he with he | he
  · exact h e he
  · rcases List.mem_append.mp he with he | he
    · rw [(mem_startedEvents he).1]
      nofun
    · obtain ⟨priority, htells⟩ := sortedTaskEvents_tell hc.valid.taskIDs he
      exact htells.type.2

theorem Logged.completed_step (h : Logged d first previous events) (hp : Regular d previous)
    (hc : Regular d current) (hs : Succeeds previous current)
    (hended : current.status.terminal = true) :
    ∃ rest e, events ++ deriveRunEvents previous current = rest ++ [e] ∧
      e.type = .workflowCompleted ∧ ∀ e' ∈ rest, e'.type ≠ .workflowCompleted := by
  cases hprevious : previous.status.terminal with
  | true =>
    rw [(deriveRunEvents_of_ended hp hc hs hprevious).2, List.append_nil]
    exact h.completed hprevious
  | false =>
    have hcompleted : completedEvents previous current =
        [workflowEvent .workflowCompleted current] := by
      refine if_pos ⟨fun heq => ?_, hended⟩
      rw [heq, hended] at hprevious
      cases hprevious
    refine ⟨_, workflowEvent .workflowCompleted current, ?_, rfl,
      uncompleted_until previous hc (h.uncompleted hprevious)⟩
    rw [deriveRunEvents, hcompleted, List.append_assoc events]

theorem Logged.uncompleted_step (h : Logged d first previous events) (hc : Regular d current)
    (hs : Succeeds previous current) (hopen : current.status.terminal = false) :
    ∀ e ∈ events ++ deriveRunEvents previous current, e.type ≠ .workflowCompleted := by
  have hprevious : previous.status.terminal = false := by
    rcases hs.status with heq | ⟨heq, -⟩ | ⟨heq, -⟩
    · rw [heq]
      exact hopen
    · rw [heq]
      rfl
    · rw [heq]
      rfl
  have hcompleted : completedEvents previous current = [] :=
    if_neg fun h => by rw [hopen] at h; cases h.2
  rw [deriveRunEvents, hcompleted, List.append_nil]
  exact uncompleted_until previous hc (h.uncompleted hprevious)

/-- The events of a further save continue the log. -/
theorem Logged.step (h : Logged d first previous events) (hp : Regular d previous)
    (hc : Regular d current) (hs : Succeeds previous current) :
    Logged d first current (events ++ deriveRunEvents previous current) where
  replayed := by
    rw [List.foldl_append, h.replayed]
    exact replay_deriveRunEvents hc hs
  startedOnce := by
    rw [List.countP_append, countP_startedEvents previous hc]
    split
    · rename_i hstarts
      -- a run that starts was pending, so no event has told of a start
      have hpending : previous.status = .pending := by
        rcases hs.status with heq | ⟨heq, -⟩ | ⟨heq, -⟩
        · exact absurd (heq.trans hstarts.2) hstarts.1
        · exact heq
        · exact absurd heq hstarts.1
      rw [List.countP_eq_zero.mpr fun e he => by simpa using h.unstarted hpending e he]
    · exact h.startedOnce
  startedFirst := h.startedFirst_step hc
  unlocked _ htask _ hdep := h.unlocked_step hc hs htask hdep
  completed := h.completed_step hp hc hs
  uncompleted := h.uncompleted_step hc hs
  unstarted hpending e he := by
    have hprevious : previous.status = .pending := by
      rcases hs.status with heq | ⟨heq, -⟩ | ⟨heq, hended⟩
      · exact heq.trans hpending
      · exact heq
      · rw [hpending] at hended
        cases hended
    rcases List.mem_append.mp he with he | he
    · exact h.unstarted hprevious e he
    · intro htype
      have hnone := countP_startedEvents previous hc
      rw [if_neg (by rw [hpending]; exact fun h => nomatch h.2)] at hnone
      exact List.countP_eq_zero.mp hnone e he (by simpa using htype)
  started hrunning := by
    by_cases hprevious : previous.status = .running
    · obtain ⟨e, he, htype⟩ := h.started hprevious
      exact ⟨e, List.mem_append_left _ he, htype⟩
    · have hmem := mem_deriveRunEvents_started hprevious hrunning
      refine ⟨workflowEvent .workflowStarted current, List.mem_append_right _ ?_, rfl⟩
      simp only [deriveRunEvents, List.mem_append]
      exact .inl (.inl hmem)
  succeeded _ hk := h.succeeded_step hs hk

end

end

/-! ## The stream of a run -/

/-- An event as it was before it was numbered. -/
def RunEvent.unnumbered (e : RunEvent) : RunEvent := { e with sequence := 0 }

theorem unnumbered_numberEvents : ∀ (n : Nat) (events : List RunEvent),
    (∀ e ∈ events, e.sequence = 0) → (numberEvents n events).map RunEvent.unnumbered = events
  | _, [], _ => rfl
  | n, e :: rest, h => by
    obtain ⟨he, hrest⟩ := List.forall_mem_cons.mp h
    rw [numberEvents, List.map_cons, unnumbered_numberEvents (n + 1) rest hrest]
    cases e
    cases he
    rfl

section

variable {runID : RunID} {d : WorkflowDefinition} {first latest : WorkflowRunSnapshot}
  {events : List RunEvent}

/-- The numbers of the events do not matter for what they tell. -/
theorem FaithfulLog.numbered (h : FaithfulLog d first latest (events.map RunEvent.unnumbered)) :
    FaithfulLog d first latest events where
  replayed := by
    rw [← h.replayed, List.foldl_map]
    rfl
  startedOnce := by
    have hcount := h.startedOnce
    rw [List.countP_map] at hcount
    exact hcount
  startedFirst := preceded_map.mp h.startedFirst
  unlocked task htask dep hdep := preceded_map.mp (h.unlocked task htask dep hdep)
  completed hended := by
    obtain ⟨rest, e, heq, htype, hrest⟩ := h.completed hended
    obtain ⟨rest', last, rfl, rfl, hlast⟩ := List.map_eq_append_iff.mp heq
    obtain ⟨e', after, rfl, rfl, hnil⟩ := List.map_eq_cons_iff.mp hlast
    rw [List.map_eq_nil_iff] at hnil
    rw [hnil]
    exact ⟨rest', e', rfl, htype, fun e he =>
      hrest e.unnumbered (List.mem_map_of_mem he)⟩
  uncompleted hopen e he := h.uncompleted hopen e.unnumbered (List.mem_map_of_mem he)

/-- Snapshots of one run that a process has stored, from its creation on. -/
inductive Series (d : WorkflowDefinition) : List WorkflowRunSnapshot → Prop
  | created {s : WorkflowRunSnapshot} (h : Regular d s) (hs : s.status = .pending) : Series d [s]
  | saved {seen : List WorkflowRunSnapshot} {s s' : WorkflowRunSnapshot} (h : Series d seen)
    (hlast : seen.getLast? = some s) (hr : Regular d s') (hs : Succeeds s s') :
    Series d (seen ++ [s'])

theorem Series.last {seen : List WorkflowRunSnapshot} (h : Series d seen) :
    ∃ s, seen.getLast? = some s := by
  cases h with
  | created => exact ⟨_, rfl⟩
  | saved => exact ⟨_, List.getLast?_concat⟩

/-- What the stream holds after a series of snapshots. -/
theorem Series.logged {seen : List WorkflowRunSnapshot} (h : Series d seen) :
    ∀ first rest, seen = first :: rest →
      let stream := rest.foldl RunEventStream.observe { latest := first }
      Logged d first stream.latest (stream.events.map RunEvent.unnumbered) ∧
        Regular d stream.latest ∧ seen.getLast? = some stream.latest := by
  induction h with
  | created h hs =>
    rintro first rest ⟨⟩
    exact ⟨logged_created h hs, h, rfl⟩
  | @saved seen s s' h hlast hr hs ih =>
    intro first rest heq
    cases seen with
    | nil => cases hlast
    | cons a rest' =>
      rw [List.cons_append] at heq
      cases heq
      obtain ⟨hlogged, hregular, hlatest⟩ := ih first rest' rfl
      cases Option.some.inj (hlast.symm.trans hlatest)
      rw [List.foldl_append, List.getLast?_concat]
      refine ⟨?_, hr, rfl⟩
      have hnew := hlogged.step hregular hr hs
      rw [List.foldl_cons, List.foldl_nil, RunEventStream.observe, List.map_append,
        unnumbered_numberEvents _ _ fun e he => (mem_deriveRunEvents he).1]
      exact hnew

/-! ## The broker keeps the streams apart -/

theorem observe_get? {broker : EventBroker} (hopen : broker.closed = false)
    (s : WorkflowRunSnapshot) (id : RunID) :
    (broker.observe s).closed = false ∧ (broker.observe s).streams.get? id =
      if s.id = id then
        some (match broker.streams.get? id with
          | none => { latest := s }
          | some stream => stream.observe s)
      else broker.streams.get? id := by
  rw [EventBroker.observe, if_neg (by rw [hopen]; exact Bool.false_ne_true)]
  refine ⟨hopen, ?_⟩
  by_cases hid : s.id = id
  · subst hid
    rw [if_pos rfl]
    exact KeyMap.get?_insert_self _ _ _
  · rw [if_neg hid]
    exact KeyMap.get?_insert_ne _ _ (Ne.symm hid)

/-- The stream of a run depends on the snapshots of that run only. -/
theorem foldl_observe_some {id : RunID} : ∀ (inputs : List WorkflowRunSnapshot)
    {broker : EventBroker} {stream : RunEventStream}, broker.closed = false →
    broker.streams.get? id = some stream →
    (inputs.foldl EventBroker.observe broker).streams.get? id =
      some ((inputs.filter fun s => s.id = id).foldl RunEventStream.observe stream)
  | [], _, _, _, hstream => hstream
  | s :: rest, broker, stream, hopen, hstream => by
    obtain ⟨hopen', hget⟩ := observe_get? hopen s id
    rw [hstream] at hget
    rw [List.foldl_cons]
    by_cases hid : s.id = id
    · rw [if_pos hid] at hget
      rw [foldl_observe_some rest hopen' hget, List.filter_cons_of_pos (by simpa using hid)]
      rfl
    · rw [if_neg hid] at hget
      rw [foldl_observe_some rest hopen' hget, List.filter_cons_of_neg (by simpa using hid)]

end

/-! ## What the schedulers of a server store -/

/-- The snapshot that a call has stored. -/
def storedSnapshot : (c : EngineCall) → EngineResult c → Option WorkflowRunSnapshot
  | .createRun _, .ok s => some s
  | .saveRun _, .ok s => some s
  | _, _ => none

/-- The snapshot that a call of the server's own process stores in a step: `observedStore`
shows it to the event broker before the call returns. -/
def storedBy (own : Nat → Bool) (w : World) : Label → Option WorkflowRunSnapshot
  | .scheduler pid choice =>
    if own pid then
      match w.processes.get? pid with
      | none => none
      | some p =>
        if p.crashed then none
        else match p.thread with
          | .running (.call c _) => (answer choice pid p w c).bind fun q => storedSnapshot c q.1
          | _ => none
    else none
  | _ => none

/-- The world, and the snapshots that calls of the own process have stored, in order. -/
structure Recording where
  world : World
  seen : List WorkflowRunSnapshot

def Recording.step (own : Nat → Bool) (v : Recording) (label : Label) : Option Recording :=
  (v.world.step label).map fun w => ⟨w, v.seen ++ (storedBy own v.world label).toList⟩

/-- What the schedulers of the server find of a run: its definitions and the run as stored. -/
def ApiServer.world (server : ApiServer) (runID : RunID) : World where
  runID := runID
  validating := true
  workflows := server.store.workflows
  history := (server.store.runs.get? runID).toList

section

variable {d : WorkflowDefinition} {s : WorkflowRunSnapshot} {base run : WorkflowRun}

theorem taskStatuses_eq (s : WorkflowRunSnapshot) :
    taskStatuses s = s.taskMap.map fun _ task => task.status := by
  rw [taskStatuses, WorkflowRunSnapshot.taskMap, KeyMap.map_ofList, KeyMap.map_ofList,
    List.map_map, List.map_map]
  refine congrArg KeyMap.ofList (List.map_congr_left fun task _ => ?_)
  simp only [Function.comp, restored_fields]

theorem Stored.taskStatuses (h : Stored s run) (k : TaskID) :
    (Api.taskStatuses s).get? k = (run.tasks.get? k).map TaskRun.status := by
  rw [taskStatuses_eq, h.tasks, KeyMap.get?_map]

theorem taskStatuses_next (h : Coherent run) (k : TaskID) :
    (taskStatuses run.snapshot.next).get? k = (run.tasks.get? k).map TaskRun.status :=
  Stored.taskStatuses (.of_saved h (run.version + 1)) k

theorem Stored.succeeds (hs : Stored s base) (hadv : Advances base run) :
    Succeeds s run.snapshot.next where
  id := by
    rw [hs.id]
    exact hadv.id hs.coherent
  status := by
    rw [hs.status]
    exact hadv.forward hs.coherent
  tasks k old hold := by
    rw [Stored.taskStatuses hs k] at hold
    obtain ⟨t, ht, rfl⟩ := Option.map_eq_some_iff.mp hold
    obtain ⟨t', ht', hforward⟩ := hadv.tasks_forward hs.coherent ht
    refine ⟨t'.status, ?_, hforward⟩
    rw [taskStatuses_next (hadv.coherent hs.coherent), ht']
    rfl
  noNew k hnone := by
    rw [Stored.taskStatuses hs k, Option.map_eq_none_iff] at hnone
    rw [taskStatuses_next (hadv.coherent hs.coherent), hadv.no_new_task hs.coherent hnone]
    rfl

theorem Lawful.regular (h : Lawful d run) (hv : run.snapshot.validate = .ok ()) :
    Regular d run.snapshot.next where
  valid := (WorkflowRunSnapshot.validate_ok_iff _).mp (WorkflowRunSnapshot.validate_next hv)
  unlocked task htask status hstatus hreleased dep hdep := by
    rw [taskStatuses_next h.coherent] at hstatus ⊢
    obtain ⟨t, ht, rfl⟩ := Option.map_eq_some_iff.mp hstatus
    have hmem : cloneTaskDefinition task ∈ run.definition.tasks := by
      rw [h.definition]
      exact List.mem_map.mpr ⟨task, htask, rfl⟩
    obtain ⟨u, hu, hdone⟩ := h.respected task.id t ht hreleased (cloneTaskDefinition task) hmem rfl
      dep (by simpa [cloneTaskDefinition] using hdep)
    rw [hu, Option.map_some, hdone]

/-- A run that a snapshot in order holds is in order. -/
theorem Regular.lawful (h : Regular d s) (hs : Stored s base)
    (hd : base.definition = cloneDefinition d) : Lawful d base where
  coherent := hs.coherent
  definition := hd
  respected := by
    intro k t ht hreleased task htask hid dep hdep
    rw [hd] at htask
    obtain ⟨task', htask', rfl⟩ := List.mem_map.mp htask
    subst hid
    have hstatus : (taskStatuses s).get? task'.id = some t.status := by
      rw [Stored.taskStatuses hs]
      exact congrArg (Option.map TaskRun.status) ht
    have hdone := h.unlocked task' htask' _ hstatus hreleased dep
      (by simpa [cloneTaskDefinition] using hdep)
    rw [Stored.taskStatuses hs] at hdone
    exact Option.map_eq_some_iff.mp hdone

end

section

variable {w w' : World} {own : Nat → Bool} {pid : Nat} {p : Process}

theorem storedBy_live (choice : Choice) (hlive : w.Live pid p) :
    storedBy own w (.scheduler pid choice) =
      if own pid then match p.thread with
        | .running (.call c _) => (answer choice pid p w c).bind fun q => storedSnapshot c q.1
        | _ => none
      else none := by
  rw [storedBy, hlive.1]
  simp only [hlive.2, Bool.false_eq_true, if_false]

/-- A step stores nothing of a run that is there, or a valid snapshot that some scheduler
saves over the last one, and the own process knows of no other. -/
theorem moves_stores (own : Nat → Bool) {ledgers : Nat → Ledger} {label : Label}
    (hc : Consistent w ledgers)
    (hv : w.validating = true) (hm : w.Moves label w') (hne : w.history ≠ []) :
    (w'.history = w.history ∧ storedBy own w label = none) ∨
    ∃ pid config s current rest, (ledgers pid).needs config w.runID (.saveRun s) ∧
      w.history = current :: rest ∧ s.version = current.version ∧ s.validate = .ok () ∧
      w'.history = s.next :: w.history ∧
      (storedBy own w label = none ∨ storedBy own w label = some s.next) := by
  cases hm with
  | @call pid p p' v c next r choice hlive ht ha =>
    have hstored : storedBy own w (.scheduler pid choice) =
        if own pid then storedSnapshot c r else none := by
      rw [storedBy_live choice hlive, ht]
      simp only [ha, Option.bind_some]
    have hnothing : storedSnapshot c r = none → storedBy own w (.scheduler pid choice) = none := by
      intro hnone
      rw [hstored, hnone]
      split <;> rfl
    cases c with
    | saveRun s =>
      rcases Choice.attempt_cases (attempt_map ha).2 with ⟨a, hok, hr⟩ | ⟨rfl, e, rfl⟩
      · have hvalid := World.checkSnapshot_ok (bind_unit_ok_iff.mp hok).1 hv
        obtain ⟨current, rest, hhistory, hversion, rfl, rfl⟩ := World.saveRun_ok hok
        have hsafe := hc.safe pid p hlive
        rw [ht] at hsafe
        refine .inr ⟨pid, p.config, s, current, rest, hsafe.1, hhistory, hversion, hvalid, rfl, ?_⟩
        rw [hstored]
        cases hr' : r with
        | error e => exact .inl (by split <;> rfl)
        | ok stored =>
          rw [hr stored hr']
          split
          · exact .inr rfl
          · exact .inl rfl
      · exact .inl ⟨rfl, hnothing rfl⟩
    | createRun s =>
      rcases Choice.attempt_cases (attempt_map ha).2 with ⟨a, hok, -⟩ | ⟨rfl, e, rfl⟩
      · exact absurd (World.createRun_ok hok).1 hne
      · exact .inl ⟨rfl, hnothing rfl⟩
    | loadRun id =>
      rcases Choice.attempt_cases (attempt_map ha).2 with ⟨a, hok, -⟩ | ⟨rfl, -⟩
      · obtain ⟨-, rfl⟩ := World.whileLive_ok hok
        exact .inl ⟨rfl, hnothing rfl⟩
      · exact .inl ⟨rfl, hnothing rfl⟩
    | _ => exact .inl ⟨show v.history = w.history from answer_history rfl ha, hnothing rfl⟩
  | again choice hlive ht =>
    refine .inl ⟨rfl, ?_⟩
    rw [storedBy_live choice hlive, ht]
    split <;> rfl
  | finish choice hlive ht =>
    refine .inl ⟨rfl, ?_⟩
    rw [storedBy_live choice hlive, ht]
    split <;> rfl
  | _ => exact .inl ⟨rfl, rfl⟩

end

/-! ## Every run of a server -/

/-- The stored snapshots are in order, and those of the own process are a series of them. -/
structure Recording.Faithful (d : WorkflowDefinition) (v : Recording) : Prop where
  filed : ∃ ledgers, Consistent v.world ledgers ∧ OnFile v.world ledgers
  validating : v.world.validating = true
  definition : v.world.workflows.get? d.id = some d
  regular : ∀ s ∈ v.world.history, Regular d s ∧ s.workflowID = d.id
  forward : v.world.history.Pairwise fun new old => Succeeds old new
  series : Series d v.seen
  seen : ∀ s, v.seen.getLast? = some s → s ∈ v.world.history

namespace Recording.Faithful

variable {d : WorkflowDefinition} {v : Recording} {own : Nat → Bool} {label : Label} {w' : World}

theorem step (h : v.Faithful d) (hm : v.world.Moves label w') :
    Recording.Faithful d ⟨w', v.seen ++ (storedBy own v.world label).toList⟩ := by
  obtain ⟨ledgers, hc, hfile⟩ := h.filed
  obtain ⟨hfiled, hkept⟩ := hfile.step hc hm
  have hvalidating := (moves_frame hm).2.trans h.validating
  obtain ⟨last, hlast⟩ := h.series.last
  have hne : v.world.history ≠ [] := List.ne_nil_of_mem (h.seen last hlast)
  rcases moves_stores own hc h.validating hm hne with ⟨hsame, hnone⟩ |
    ⟨pid, config, s, current, rest, hneeds, hhistory, hversion, hvalid, hnew, hstored⟩
  · rw [hnone, Option.toList_none, List.append_nil]
    exact ⟨hfiled, hvalidating, hkept _ _ h.definition, by rw [hsame]; exact h.regular,
      by rw [hsame]; exact h.forward, h.series, by rw [hsame]; exact h.seen⟩
  obtain ⟨base, run, d', hbase, hadv, rfl, hd', hdefinition⟩ :=
    hfile.saves hc hneeds hhistory hversion
  have hcurrent : current ∈ v.world.history := hhistory ▸ List.mem_cons_self
  obtain ⟨hregular, hworkflow⟩ := h.regular current hcurrent
  -- there is one definition on file under the ID that the snapshots carry
  have hid : base.definition.id = d.id := hbase.workflow.symm.trans hworkflow
  have hsame : d' = d := by
    rw [hdefinition, cloneDefinition_id] at hid
    rw [hid, h.definition] at hd'
    exact (Option.some.inj hd').symm
  subst hsame
  have hlawful := (hregular.lawful hbase hdefinition).advances hadv
  have hnext : Regular d' run.snapshot.next := Lawful.regular hlawful hvalid
  have hlater : ∀ s ∈ v.world.history, Succeeds s run.snapshot.next := by
    have hforward := h.forward
    rw [hhistory] at hforward ⊢
    intro s hs
    rcases List.mem_cons.mp hs with rfl | hs
    · exact Stored.succeeds hbase hadv
    · exact ((List.pairwise_cons.mp hforward).1 s hs).trans (Stored.succeeds hbase hadv)
  refine ⟨hfiled, hvalidating, hkept _ _ h.definition, ?_, ?_, ?_, ?_⟩ <;> dsimp only
  · rw [hnew]
    intro s hs
    rcases List.mem_cons.mp hs with rfl | hs
    · refine ⟨hnext, ?_⟩
      show run.definition.id = d'.id
      rw [hlawful.definition, cloneDefinition_id]
    · exact h.regular s hs
  · rw [hnew]
    exact List.pairwise_cons.mpr ⟨hlater, h.forward⟩
  · rcases hstored with hstored | hstored <;> rw [hstored]
    · rw [Option.toList_none, List.append_nil]
      exact h.series
    · exact h.series.saved hlast hnext (hlater last (h.seen last hlast))
  · rw [hnew]
    rcases hstored with hstored | hstored <;> rw [hstored]
    · rw [Option.toList_none, List.append_nil]
      exact fun s hs => List.mem_cons_of_mem _ (h.seen s hs)
    · intro s hs
      rw [Option.toList_some, List.getLast?_concat] at hs
      cases hs
      exact List.mem_cons_self

theorem run (h : v.Faithful d) {labels : List Label} {v' : Recording}
    (hrun : runLabels (Recording.step own) v labels = some v') : v'.Faithful d := by
  induction labels generalizing v with
  | nil =>
    cases hrun
    exact h
  | cons label rest ih =>
    obtain ⟨t, ht, hrest⟩ := runLabels_cons.mp hrun
    obtain ⟨w', hw', rfl⟩ := Option.map_eq_some_iff.mp ht
    exact ih (h.step (World.step_moves hw')) hrest

end Recording.Faithful


/-- What a request to start a run leaves, once the run was stored: the run as created, in
the store and in its stream. -/
theorem startRun_created {server : ApiServer} {env : Surroundings} {run : WorkflowRun}
    (refused : ManagerError → APIError) {store : FileStore} (hversion : run.version = 0)
    (h : commit server.store (.createRun env.ctx env.ctx run.snapshot) env.appendError =
      .ok store) :
    run.snapshot.validate = .ok () ∧
      (server.startRun env run refused).2.broker = server.broker.observe run.snapshot.next ∧
      (server.startRun env run refused).2.world run.id = {
        runID := run.id
        validating := true
        workflows := server.store.workflows
        history := [run.snapshot.next] } := by
  have hnext : run.snapshot.next = { run.snapshot with version := 1 } := by
    simp only [WorkflowRunSnapshot.next, WorkflowRun.snapshot, hversion]
  have hserver : (server.startRun env run refused).2.store = store ∧
      (server.startRun env run refused).2.broker =
        server.broker.observe { run.snapshot with version := 1 } := by
    unfold ApiServer.startRun
    rw [h]
    dsimp only
    split <;> exact ⟨rfl, rfl⟩
  rcases commit_ok h with ⟨hnone, -⟩ | ⟨c, hc, rfl⟩
  · rcases prepare_none hnone with ⟨_, _, _, heq⟩ | ⟨_, _, _, heq⟩ <;> cases heq
  simp only [FileStore.prepare, FileStore.createRun, bind_unit_ok_iff, Except.ok.injEq,
    Option.some.injEq] at hc
  obtain ⟨-, hvalid, -, -, -, rfl⟩ := hc
  refine ⟨checkSnapshot_ok_iff.mp hvalid, hnext ▸ hserver.2, ?_⟩
  rw [ApiServer.world, hserver.1, hnext]
  have hget : (server.store.runs.insert run.id { run.snapshot with version := 1 }).get? run.id =
      some { run.snapshot with version := 1 } := KeyMap.get?_insert_self _ _ _
  simp only [WorkflowRun.snapshot] at hget ⊢
  rw [hget]
  rfl

/-- A run that a request of the server creates and its schedulers, in any number of calls
and with those of other processes, go on with: its events are a faithful, causally ordered
log, whatever snapshots of other runs the broker is shown in between. -/
theorem events_tell_the_run {server : ApiServer} (hfiled : server.Filed)
    (hopen : server.broker.closed = false) {env : Surroundings} {principal : Principal}
    {method : Method} {route : Route} {run : WorkflowRun} {refused : ManagerError → APIError}
    (hplan : server.plan env principal method route = .ok (.startRun run refused))
    (hunseen : server.broker.streams.get? run.id = none) {store : FileStore}
    (hcreated : commit server.store (.createRun env.ctx env.ctx run.snapshot) env.appendError =
      .ok store) {own : Nat → Bool} {labels : List Label} {v : Recording}
    (hrun : runLabels (Recording.step own)
      ⟨(server.handle env principal method route).2.world run.id, [run.snapshot.next]⟩ labels =
        some v) {inputs : List WorkflowRunSnapshot}
    (hinputs : run.snapshot.next :: (inputs.filter fun s => s.id = run.id) = v.seen) :
    ∃ d stream, server.store.workflows.get? run.snapshot.workflowID = some d ∧
      (inputs.foldl EventBroker.observe
        (server.handle env principal method route).2.broker).streams.get? run.id = some stream ∧
      v.seen.getLast? = some stream.latest ∧
      FaithfulLog d run.snapshot.next stream.latest stream.events := by
  have hroute : ∀ body, route ≠ .projects body := by
    rintro body rfl
    obtain ⟨_, _, _, _, -, heq⟩ :=
      handleProjects_creates hfiled.store.sound_keyed.2 hplan
    cases heq
  obtain ⟨-, -, -, -, d, now, hd, hnew⟩ :=
    plan_settled hfiled.store.sound_keyed.2 hroute hplan
  have hfields : run.version = 0 ∧ run.status = .pending ∧ run.snapshot.workflowID = d.id := by
    obtain ⟨-, -, heq⟩ := newWorkflowRun_ok hnew
    rw [heq]
    exact ⟨rfl, rfl, rfl⟩
  obtain ⟨hvalid, hbroker, hworld⟩ := startRun_created refused hfields.1 hcreated
  have hhandle : (server.handle env principal method route).2 =
      (server.startRun env run refused).2 := by
    rw [ApiServer.handle, hplan]
    rfl
  rw [hhandle, hworld] at hrun
  rw [hhandle, hbroker]
  have hregular := Lawful.regular (newWorkflowRun_lawful hnew) hvalid
  have hinitial : Recording.Faithful d ⟨{
      runID := run.id
      validating := true
      workflows := server.store.workflows
      history := [run.snapshot.next] }, [run.snapshot.next]⟩ := by
    refine ⟨⟨fun _ => {}, World.Initial.consistent ⟨rfl, rfl, .inr ⟨_, rfl, rfl⟩⟩,
      hfiled.store.sound_keyed.2.workflows, nofun⟩, rfl, hd, ?_, List.pairwise_singleton _ _,
      .created hregular hfields.2.1, ?_⟩
    · intro s hs
      cases List.mem_singleton.mp hs
      exact ⟨hregular, hfields.2.2⟩
    · rintro s ⟨⟩
      exact List.mem_singleton_self _
  have hseries := (hinitial.run hrun).series
  rw [← hinputs] at hseries ⊢
  obtain ⟨hlogged, -, hlast⟩ := hseries.logged _ _ rfl
  obtain ⟨hstill, hstream⟩ := observe_get? hopen run.snapshot.next run.id
  rw [if_pos (show run.snapshot.next.id = run.id from rfl), hunseen] at hstream
  exact ⟨d, _, hfields.2.2 ▸ hd, foldl_observe_some inputs hstill hstream, hlast,
    FaithfulLog.numbered hlogged.toFaithfulLog⟩

/-- The server after a workflow of one task has been added. -/
def workflowServer : ApiServer :=
  (projectServer.handle atNoon ada .post (.workflows (.ok ⟨ascii "w", ascii "forge",
    [⟨ascii "a", ascii "A", [], ascii "h", [], 1, some 0, some 0⟩]⟩))).2

def startR : Route := .workflowRuns (ascii "w") (.ok (ascii "r"))

/-- A call of `Recover` takes up the run and executes it to its end. -/
def recoverToEnd : List Label :=
  .launch 0 sampleConfig .recover :: schedulerSteps 0 [.go, .go, .clock 5, .go, .go,
      .clocks fun _ => 5, .go, .go, .go, .go, .clock 5, .clock 5, .go] ++
    workerSteps 0 (workerIDFor sampleConfig (ascii "r") 1 1) [.start, .receive, .sendClaim] ++
    schedulerSteps 0 [.take .claim, .clock 5, .go, .go] ++
    workerSteps 0 (workerIDFor sampleConfig (ascii "r") 1 1)
      [.takeAnswer, .finish [] none, .sendResult] ++
    schedulerSteps 0 [.go, .go, .clock 5, .clock 5, .take .result, .go, .clock 5,
      .clocks fun _ => 5, .go, .go, .go, .go, .clock 5, .clock 5, .go] ++
    workerSteps 0 (workerIDFor sampleConfig (ascii "r") 1 1) [.leave] ++
    schedulerSteps 0 [.go, .clock 5, .go]

theorem ok_of_toOption {ε α : Type} {x : Except ε α} {a : α} (h : x.toOption = some a) :
    x = .ok a := by
  cases x <;> cases h
  rfl

/-- The run that an action starts. -/
def Action.started? : Action → Option WorkflowRun
  | .startRun run _ => some run
  | _ => none

theorem events_tell_the_run_recoverToEnd : ∃ (run : WorkflowRun) (v : Recording)
    (d : WorkflowDefinition) (stream : RunEventStream),
    runLabels (Recording.step fun _ => true)
      ⟨(workflowServer.handle atNoon ada .post startR).2.world (ascii "r"), [run.snapshot.next]⟩
      recoverToEnd = some v ∧
    (v.seen.tail.foldl EventBroker.observe
      (workflowServer.handle atNoon ada .post startR).2.broker).streams.get? (ascii "r") =
        some stream ∧
    stream.latest.status = .succeeded ∧
    FaithfulLog d run.snapshot.next stream.latest stream.events := by
  have hstarted : (((workflowServer.plan atNoon ada .post startR).toOption.bind
      Action.started?).any fun run => decide (run.id = ascii "r" ∧
        (commit workflowServer.store (.createRun .live .live run.snapshot) none).toOption.isSome ∧
        (runLabels (Recording.step fun _ => true)
          ⟨(workflowServer.handle atNoon ada .post startR).2.world (ascii "r"),
            [run.snapshot.next]⟩ recoverToEnd).any fun v =>
          decide (run.snapshot.next :: (v.seen.tail.filter fun s => s.id = ascii "r") = v.seen ∧
            v.seen.getLast?.map WorkflowRunSnapshot.status = some .succeeded))) = true := by
    decide +kernel
  obtain ⟨run, hrun, hfacts⟩ := (Option.any_eq_true _ _).mp hstarted
  obtain ⟨hid, hcommit, hreached⟩ := of_decide_eq_true hfacts
  obtain ⟨v, hv, hseen, hended⟩ := exists_of_runLabels (Recording.step fun _ => true) _ _ _ hreached
  obtain ⟨action, hplan, haction⟩ := Option.bind_eq_some_iff.mp hrun
  cases action with
  | startRun run' refused =>
    cases haction
    obtain ⟨store, hstore⟩ := Option.isSome_iff_exists.mp hcommit
    rw [← hid] at hv hseen
    obtain ⟨d, stream, -, hstream, hlatest, hlog⟩ := events_tell_the_run
      (handle_filed projectServer_filed _ _ _ _) (by decide +kernel)
      (ok_of_toOption hplan) (by rw [hid]; decide +kernel)
      (ok_of_toOption hstore) hv hseen
    rw [hlatest] at hended
    rw [hid] at hv hstream
    exact ⟨run, v, d, stream, hv, hstream, Option.some.inj hended, hlog⟩
  | _ => cases haction

end ForgeFlow.Api
