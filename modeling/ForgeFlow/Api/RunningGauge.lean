import ForgeFlow.Api.EventLog
import ForgeFlow.Base.Counting

/-!
# The gauge of running tasks

The store that the server hands to its engine counts, from the events of every snapshot
that is saved, how many tasks are running. A stream may begin in the middle of a run:
then a task is seen to leave a status it was never seen to enter.
-/

namespace ForgeFlow.Api

open ForgeFlow.Base ForgeFlow.Workflow ForgeFlow.Execution

variable {k : TaskID} {task : RunID × TaskID} {call : MonitorCall}

/-! ## The registry -/

/-- What the registry counts of runs and tasks; a histogram is the durations it was given. -/
structure Metrics where
  workflowsSubmitted : Nat := 0
  workflowsSucceeded : Nat := 0
  workflowsFailed : Nat := 0
  workflowsCanceled : Nat := 0
  tasksExecuted : KeyMap GoString Nat := ∅
  taskFailures : Nat := 0
  taskRetries : Nat := 0
  runningTasks : Nat := 0
  taskDuration : List Int := []
  workflowDuration : List Int := []
  deriving DecidableEq

namespace Metrics

def workflowSubmitted (m : Metrics) : Metrics :=
  { m with workflowsSubmitted := m.workflowsSubmitted + 1 }

def workflowCompleted (m : Metrics) (status : WorkflowRunStatus) (duration : Int) : Metrics :=
  let counted := match status with
    | .succeeded => { m with workflowsSucceeded := m.workflowsSucceeded + 1 }
    | .failed => { m with workflowsFailed := m.workflowsFailed + 1 }
    | .canceled => { m with workflowsCanceled := m.workflowsCanceled + 1 }
    | _ => m
  { counted with workflowDuration := m.workflowDuration ++ [duration] }

/-- One more attempt that ended with the status. -/
def executed (m : Metrics) (status : GoString) : KeyMap GoString Nat :=
  m.tasksExecuted.insert status ((m.tasksExecuted.get? status).getD 0 + 1)

def taskStarted (m : Metrics) : Metrics := { m with runningTasks := m.runningTasks + 1 }

def taskCompleted (m : Metrics) (status : GoString) (duration : Int) : Metrics :=
  { m with
    tasksExecuted := m.executed status
    taskFailures := if status = ascii "failed" then m.taskFailures + 1 else m.taskFailures
    runningTasks := if 0 < m.runningTasks then m.runningTasks - 1 else m.runningTasks
    taskDuration := m.taskDuration ++ [duration] }

def retryScheduled (m : Metrics) (duration : Int) : Metrics :=
  { m with
    tasksExecuted := m.executed (ascii "failed")
    taskFailures := m.taskFailures + 1
    taskRetries := m.taskRetries + 1
    runningTasks := if 0 < m.runningTasks then m.runningTasks - 1 else m.runningTasks
    taskDuration := m.taskDuration ++ [duration] }

end Metrics

def taskAttemptDuration (task : TaskRun) : Int :=
  if task.startedAt = 0 ∨ task.finishedAt = 0 ∨ task.finishedAt < task.startedAt then 0
  else task.finishedAt - task.startedAt

/-- The status that the event's task had before. -/
def RunEvent.previousTaskStatus (previous : WorkflowRunSnapshot) (event : RunEvent) :
    Option TaskRunStatus :=
  (taskStatuses previous).get? event.taskID

def recordRunEvent (previous snapshot : WorkflowRunSnapshot) (m : Metrics) (event : RunEvent) :
    Metrics :=
  let tasks := KeyMap.ofList (snapshot.tasks.map fun task => (task.taskID, task))
  let duration := ((tasks.get? event.taskID).map taskAttemptDuration).getD 0
  match event.type with
  | .taskStarted => m.taskStarted
  | .taskSucceeded => m.taskCompleted (ascii "succeeded") duration
  | .taskFailed => m.taskCompleted (ascii "failed") duration
  | .retryScheduled => m.retryScheduled duration
  | .taskCanceled =>
    if event.previousTaskStatus previous = some .running then
      m.taskCompleted (ascii "canceled") duration
    else m
  | .workflowCompleted =>
    m.workflowCompleted snapshot.status (snapshot.updatedAt - snapshot.createdAt)
  | .workflowStarted | .taskReady | .runSnapshot => m

def recordRunEvents (previous snapshot : WorkflowRunSnapshot) (events : List RunEvent)
    (m : Metrics) : Metrics :=
  events.foldl (recordRunEvent previous snapshot) m

/-! ## The observed store -/

/-- The snapshot before, and the events that `observe` returns for one that follows it. -/
def EventBroker.newEvents (broker : EventBroker) (snapshot : WorkflowRunSnapshot) :
    Option (WorkflowRunSnapshot × List RunEvent) :=
  if broker.closed then none
  else (broker.streams.get? snapshot.id).map fun stream =>
    (stream.latest,
      numberEvents (stream.events.length + 1) (deriveRunEvents stream.latest snapshot))

/-- The runs of the store behind, and what this process has made of them. -/
structure ObservedStore where
  runs : KeyMap RunID WorkflowRunSnapshot := ∅
  broker : EventBroker := {}
  metrics : Metrics := {}
  deriving DecidableEq

/-- A snapshot as it is stored. -/
def nextVersion (snapshot : WorkflowRunSnapshot) : WorkflowRunSnapshot :=
  { snapshot with version := snapshot.version + 1 }

namespace ObservedStore

/-- `none` where the store behind refuses. -/
def createRun (store : ObservedStore) (snapshot : WorkflowRunSnapshot) : Option ObservedStore :=
  if snapshot.validate = .ok () ∧ store.runs.get? snapshot.id = none ∧ snapshot.version = 0 then
    let stored := nextVersion snapshot
    some {
      runs := store.runs.insert snapshot.id stored
      broker := store.broker.observe stored
      metrics := store.metrics.workflowSubmitted }
  else none

def saveRun (store : ObservedStore) (snapshot : WorkflowRunSnapshot) : Option ObservedStore :=
  if snapshot.validate = .ok () ∧
      (store.runs.get? snapshot.id).map WorkflowRunSnapshot.version = some snapshot.version then
    let stored := nextVersion snapshot
    some {
      runs := store.runs.insert snapshot.id stored
      broker := store.broker.observe stored
      metrics := match store.broker.newEvents stored with
        | none => store.metrics
        | some (previous, events) => recordRunEvents previous stored events store.metrics }
  else none

end ObservedStore

/-! ## What this process has seen -/

/-- The tasks of a snapshot that the test on their status before and now picks. -/
def tasksWhere (previous current listed : WorkflowRunSnapshot)
    (test : Option TaskRunStatus → Option TaskRunStatus → Bool) : Finset (RunID × TaskID) :=
  (listed.tasks.map fun task => (listed.id, task.taskID)).toFinset.filter fun task =>
    test ((taskStatuses previous).get? task.2) ((taskStatuses current).get? task.2) = true

def entersRunning (old new : Option TaskRunStatus) : Bool :=
  old ≠ some .running ∧ new = some .running

/-- The tasks seen to enter the running status. -/
def entering (previous current : WorkflowRunSnapshot) : Finset (RunID × TaskID) :=
  tasksWhere previous current current entersRunning

/-- The tasks seen to leave the running status. -/
def leaving (previous current : WorkflowRunSnapshot) : Finset (RunID × TaskID) :=
  tasksWhere previous current previous fun old new => entersRunning new old

/-- The observed store, with the tasks that this process has seen enter the running status
and has not seen leave it. -/
structure Monitor extends ObservedStore where
  entered : Finset (RunID × TaskID) := ∅
  deriving DecidableEq

/-- A call on the observed store, a reader that opens the stream of a stored run, the end of
all streams, and a new process. -/
inductive MonitorCall where
  | createRun (snapshot : WorkflowRunSnapshot)
  | saveRun (snapshot : WorkflowRunSnapshot)
  | seed (runID : RunID)
  | close
  | restart
  deriving DecidableEq

namespace Monitor

/-- The last snapshot in the stream of a run. -/
def latest (w : Monitor) (id : RunID) : Option WorkflowRunSnapshot :=
  (w.broker.streams.get? id).map RunEventStream.latest

/-- The snapshot that the next one is compared with. -/
def seenBefore (w : Monitor) (id : RunID) : Option WorkflowRunSnapshot :=
  if w.broker.closed then none else w.latest id

/-- The tasks entered after the process has seen a snapshot. -/
def see (w : Monitor) (snapshot : WorkflowRunSnapshot) : Finset (RunID × TaskID) :=
  match w.seenBefore snapshot.id with
  | none => w.entered
  | some previous => w.entered \ leaving previous snapshot ∪ entering previous snapshot

def step (w : Monitor) : MonitorCall → Option Monitor
  | .createRun snapshot => (w.toObservedStore.createRun snapshot).map fun store =>
      ⟨store, w.see snapshot⟩
  | .saveRun snapshot => (w.toObservedStore.saveRun snapshot).map fun store =>
      ⟨store, w.see snapshot⟩
  | .seed runID => (w.runs.get? runID).map fun snapshot =>
      { w with broker := w.broker.seed snapshot }
  | .close => some { w with broker := w.broker.close }
  | .restart => some { runs := w.runs }

/-- The gauge shows how many tasks were seen to enter the running status and not to leave it. -/
def Counts (w : Monitor) : Prop := w.metrics.runningTasks = w.entered.card

end Monitor

/-! ## One event -/

def RunEvent.raises (e : RunEvent) : Bool := e.type = .taskStarted

def RunEvent.lowers (previous : WorkflowRunSnapshot) (e : RunEvent) : Bool :=
  match e.type with
  | .taskSucceeded | .taskFailed | .retryScheduled => true
  | .taskCanceled => e.previousTaskStatus previous = some .running
  | _ => false

/-- Whether the event of a change of status lowers the gauge. -/
def lowersGauge : Option TaskRunStatus → Option TaskRunStatus → Bool
  | some old, some new => old ≠ new && match new with
    | .succeeded | .failed | .retryWaiting => true
    | .ready | .canceled => old = .running
    | _ => false
  | _, _ => false

/-- The tasks whose events lower the gauge. -/
def lowered (previous current : WorkflowRunSnapshot) : Finset (RunID × TaskID) :=
  tasksWhere previous current current lowersGauge

theorem change_of_lowersGauge {old new : TaskRunStatus}
    (h : lowersGauge (some old) (some new) = true) :
    old ≠ new ∧ new ≠ .pending ∧ new.valid = true ∧ new ≠ .running := by
  cases new <;> simp_all [lowersGauge, TaskRunStatus.valid]

theorem lowers_of_raises (previous : WorkflowRunSnapshot) (e : RunEvent) (h : e.raises = true) :
    e.lowers previous = false := by
  have htype : e.type = .taskStarted := of_decide_eq_true h
  rw [RunEvent.lowers, htype]

section

variable {previous current : WorkflowRunSnapshot}

theorem runningTasks_of_raises (m : Metrics) (e : RunEvent) (h : e.raises = true) :
    (recordRunEvent previous current m e).runningTasks = m.runningTasks + 1 := by
  have htype : e.type = .taskStarted := of_decide_eq_true h
  simp only [recordRunEvent, htype, Metrics.taskStarted]

/-- The clamp of the source is subtraction of natural numbers. -/
theorem clamped_eq (n : Nat) : (if 0 < n then n - 1 else n) = n - 1 := by
  split <;> omega

theorem runningTasks_of_not_raises (m : Metrics) (e : RunEvent) (h : e.raises = false) :
    (recordRunEvent previous current m e).runningTasks =
      m.runningTasks - if e.lowers previous then 1 else 0 := by
  have hne : e.type ≠ .taskStarted := of_decide_eq_false h
  unfold recordRunEvent RunEvent.lowers
  cases htype : e.type with
  | taskStarted => exact absurd htype hne
  | taskSucceeded | taskFailed =>
    simp only [Metrics.taskCompleted, clamped_eq, if_true]
  | retryScheduled => simp only [Metrics.retryScheduled, clamped_eq, if_true]
  | taskCanceled =>
    by_cases hprevious : e.previousTaskStatus previous = some .running
    · simp only [hprevious, if_true, Metrics.taskCompleted, clamped_eq, decide_true]
    · simp only [hprevious, if_false, decide_false, Bool.false_eq_true, Nat.sub_zero]
  | workflowCompleted =>
    simp only [Metrics.workflowCompleted, Bool.false_eq_true, if_false, Nat.sub_zero]
    split <;> rfl
  | workflowStarted | taskReady | runSnapshot =>
    simp only [Bool.false_eq_true, if_false, Nat.sub_zero]

/-- The numbers of events are not looked at. -/
theorem recordRunEvents_numberEvents : ∀ (events : List RunEvent) (n : Nat) (m : Metrics),
    recordRunEvents previous current (numberEvents n events) m =
      recordRunEvents previous current events m
  | [], _, _ => rfl
  | _ :: rest, n, _ => recordRunEvents_numberEvents rest (n + 1) _

/-! ## The events of one save -/

/-- What the event of a change does to the gauge, and where it stands. -/
theorem TellsChange.gauge {priority : Nat} {e : RunEvent}
    (h : TellsChange previous current priority e) :
    e.raises = entersRunning ((taskStatuses previous).get? e.taskID)
      ((taskStatuses current).get? e.taskID) ∧
    e.lowers previous = lowersGauge ((taskStatuses previous).get? e.taskID)
      ((taskStatuses current).get? e.taskID) ∧
    (e.raises = true → priority = 3) ∧ (e.lowers previous = true → priority = 1) := by
  obtain ⟨old, new, hold, hnew, hne, -, htransition⟩ := h
  rw [RunEvent.raises, RunEvent.lowers, RunEvent.previousTaskStatus, hold, hnew]
  generalize e.type = type at htransition ⊢
  cases new with
  | pending | other _ => cases htransition
  | ready =>
    rw [taskTransitionEvent] at htransition
    split at htransition
    · rename_i hrunning
      cases htransition
      simp [entersRunning, lowersGauge, hrunning]
    · rename_i hrunning
      cases htransition
      simp [entersRunning, lowersGauge, hrunning]
  | running | succeeded | failed | canceled | retryWaiting =>
    cases htransition
    simp [entersRunning, lowersGauge, hne]

theorem isSome_taskStatuses {s : WorkflowRunSnapshot} :
    ((taskStatuses s).get? k).isSome = true ↔ ∃ task ∈ s.tasks, task.taskID = k := by
  rw [taskStatuses, KeyMap.get?_map, Option.isSome_map, ← KeyMap.contains, KeyMap.contains_ofList]
  simp

theorem mem_tasksWhere {listed : WorkflowRunSnapshot}
    {test : Option TaskRunStatus → Option TaskRunStatus → Bool} :
    task ∈ tasksWhere previous current listed test ↔
      (task.1 = listed.id ∧ ((taskStatuses listed).get? task.2).isSome = true) ∧
        test ((taskStatuses previous).get? task.2) ((taskStatuses current).get? task.2) = true := by
  rw [tasksWhere, Finset.mem_filter, List.mem_toFinset, List.mem_map, isSome_taskStatuses]
  refine and_congr_left fun _ => ?_
  constructor
  · rintro ⟨t, ht, rfl⟩
    exact ⟨rfl, t, ht, rfl⟩
  · rintro ⟨hid, t, ht, hk⟩
    exact ⟨t, ht, Prod.ext hid.symm hk⟩

/-- Events are counted by the tasks they are about. -/
theorem countP_taskEvents (hn : (current.tasks.map TaskRun.taskID).Nodup) {p : RunEvent → Bool}
    {test : Option TaskRunStatus → Option TaskRunStatus → Bool}
    (hp : ∀ q ∈ taskEvents previous current, p q.2 =
      test ((taskStatuses previous).get? q.2.taskID) ((taskStatuses current).get? q.2.taskID))
    (hmade : ∀ k, test ((taskStatuses previous).get? k) ((taskStatuses current).get? k) = true →
      ∃ q ∈ taskEvents previous current, q.2.taskID = k) :
    (taskEvents previous current).countP (fun q => p q.2) =
      (tasksWhere previous current current test).card := by
  have hnodup : (((taskEvents previous current).filter fun q => p q.2).map
      fun q => (current.id, q.2.taskID)).Nodup := by
    have hids := (taskEvents_nodup previous hn).sublist
      ((List.filter_sublist (p := fun q => p q.2)).map _)
    have hpairs := hids.map (Prod.mk_right_injective current.id)
    rwa [List.map_map] at hpairs
  rw [List.countP_eq_length_filter, ← List.length_map (fun q : Nat × RunEvent =>
    (current.id, q.2.taskID)), ← List.toFinset_card_of_nodup hnodup]
  congr 1
  ext task
  rw [List.mem_toFinset, List.mem_map, mem_tasksWhere]
  constructor
  · rintro ⟨q, hq, rfl⟩
    obtain ⟨hmem, hpq⟩ := List.mem_filter.mp hq
    obtain ⟨old, new, -, hnew, -⟩ := taskEvents_tell hn hmem
    exact ⟨⟨rfl, by rw [hnew]; rfl⟩, hp q hmem ▸ hpq⟩
  · rintro ⟨⟨hid, -⟩, htest⟩
    obtain ⟨q, hmem, hk⟩ := hmade task.2 htest
    refine ⟨q, List.mem_filter.mpr ⟨hmem, ?_⟩, Prod.ext hid.symm hk⟩
    rw [hp q hmem, hk]
    exact htest

/-- Two snapshots of the same tasks, of which none went back from running to pending. -/
structure Orderly (previous current : WorkflowRunSnapshot) : Prop where
  sameTasks : (taskStatuses previous).keys = (taskStatuses current).keys
  notBack : ∀ k ∈ (taskStatuses previous).keys, (taskStatuses previous).get? k = some .running →
    (taskStatuses current).get? k ≠ some .pending

instance (previous current : WorkflowRunSnapshot) : Decidable (Orderly previous current) :=
  decidable_of_iff _ ⟨fun h => ⟨h.1, h.2⟩, fun h => And.intro h.sameTasks h.notBack⟩

theorem Orderly.isSome (h : Orderly previous current) (k : TaskID) :
    ((taskStatuses previous).get? k).isSome = ((taskStatuses current).get? k).isSome := by
  rw [Bool.eq_iff_iff, ← KeyMap.mem_keys_iff, ← KeyMap.mem_keys_iff, h.sameTasks]

/-- A change that lowers the gauge makes an event. -/
theorem exists_event_of_lowersGauge
    (h : lowersGauge ((taskStatuses previous).get? k) ((taskStatuses current).get? k) = true) :
    ∃ q ∈ taskEvents previous current, q.2.taskID = k := by
  cases hold : (taskStatuses previous).get? k with
  | none => rw [hold] at h; cases h
  | some old =>
    cases hnew : (taskStatuses current).get? k with
    | none => rw [hold, hnew] at h; cases h
    | some new =>
      rw [hold, hnew] at h
      obtain ⟨hne, hpending, hvalid, -⟩ := change_of_lowersGauge h
      obtain ⟨⟨type, priority⟩, htransition⟩ : ∃ q, taskTransitionEvent old new = some q :=
        exists_transition hpending hvalid
      obtain ⟨q, hq, -, -, hk, -⟩ := exists_taskEvent hold hnew hne htransition
      exact ⟨q, hq, hk⟩

theorem exists_event_of_entering (horderly : Orderly previous current)
    (h : entersRunning ((taskStatuses previous).get? k) ((taskStatuses current).get? k) = true) :
    ∃ q ∈ taskEvents previous current, q.2.taskID = k := by
  obtain ⟨hold, hnew⟩ := of_decide_eq_true h
  have hsome := horderly.isSome k
  rw [hnew] at hsome
  obtain ⟨old, hget⟩ := Option.isSome_iff_exists.mp hsome
  rw [hget] at hold
  obtain ⟨q, hq, -, -, hk, -⟩ :=
    exists_taskEvent hget hnew (fun heq => hold (congrArg some heq)) rfl
  exact ⟨q, hq, hk⟩

/-- Events are counted as they are derived, in whatever order. -/
theorem countP_deriveRunEvents {p : RunEvent → Bool}
    (hp : ∀ e, e.type = .workflowStarted ∨ e.type = .workflowCompleted → p e = false) :
    (deriveRunEvents previous current).countP p =
      (taskEvents previous current).countP fun q => p q.2 := by
  have hstarted : (startedEvents previous current).countP p = 0 :=
    List.countP_eq_zero.mpr fun e he => by
      rw [(mem_startedEvents he).1, hp _ (.inl rfl)]
      decide
  have hcompleted : (completedEvents previous current).countP p = 0 :=
    List.countP_eq_zero.mpr fun e he => by
      rw [mem_completedEvents he, hp _ (.inr rfl)]
      decide
  rw [deriveRunEvents, List.countP_append, List.countP_append, hstarted, hcompleted,
    sortedTaskEvents, List.countP_map, (List.perm_insertionSort _ _).countP_eq]
  simp only [Nat.zero_add, Nat.add_zero]
  rfl

theorem lowers_of_workflow (previous : WorkflowRunSnapshot) (e : RunEvent)
    (h : e.type = .workflowStarted ∨ e.type = .workflowCompleted) : e.lowers previous = false := by
  rcases h with h | h <;> rw [RunEvent.lowers, h]

theorem raises_of_workflow (e : RunEvent)
    (h : e.type = .workflowStarted ∨ e.type = .workflowCompleted) : e.raises = false := by
  rcases h with h | h <;> rw [RunEvent.raises, h] <;> rfl

/-- Tasks that leave are told before tasks that enter. -/
theorem deriveRunEvents_lowers_first (hn : (current.tasks.map TaskRun.taskID).Nodup) :
    (deriveRunEvents previous current).Pairwise
      fun e e' => e.raises = true → e'.lowers previous = false := by
  have htasks : (sortedTaskEvents previous current).Pairwise
      fun e e' => e.raises = true → e'.lowers previous = false := by
    refine List.pairwise_map.mpr ((taskEvents_sorted previous current).imp_of_mem ?_)
    intro q q' hq hq' hle hraises
    have hpriority := (taskEvents_tell hn ((List.mem_insertionSort _).mp hq)).gauge.2.2.1 hraises
    have hfirst := (taskEvents_tell hn ((List.mem_insertionSort _).mp hq')).gauge.2.2.2
    by_contra hlowers
    have := hfirst (Bool.eq_true_of_not_eq_false hlowers)
    omega
  rw [deriveRunEvents, List.append_assoc]
  refine List.pairwise_append.mpr ⟨?_, List.pairwise_append.mpr ⟨htasks, ?_, ?_⟩, ?_⟩
  · refine List.pairwise_of_forall_mem_list fun e he _ _ hraises => ?_
    rw [(mem_startedEvents he).1] at hraises
    cases hraises
  · refine List.pairwise_of_forall_mem_list fun e he _ _ hraises => ?_
    rw [mem_completedEvents he] at hraises
    cases hraises
  · intro e _ e' he' _
    rw [mem_completedEvents he']
    rfl
  · intro e he _ _ hraises
    rw [(mem_startedEvents he).1] at hraises
    cases hraises

/-- The gauge after the events of a save. -/
theorem runningTasks_recordRunEvents (hn : (current.tasks.map TaskRun.taskID).Nodup)
    (horderly : Orderly previous current) (n : Nat) (m : Metrics) :
    (recordRunEvents previous current (numberEvents n (deriveRunEvents previous current))
      m).runningTasks =
      m.runningTasks - (lowered previous current).card + (entering previous current).card := by
  rw [recordRunEvents_numberEvents, recordRunEvents,
    foldl_clamped runningTasks_of_raises runningTasks_of_not_raises (lowers_of_raises previous) _ m
      (deriveRunEvents_lowers_first hn),
    countP_deriveRunEvents (lowers_of_workflow previous), countP_deriveRunEvents raises_of_workflow,
    countP_taskEvents hn (fun q hq => (taskEvents_tell hn hq).gauge.2.1)
      fun k => exists_event_of_lowersGauge,
    countP_taskEvents hn (fun q hq => (taskEvents_tell hn hq).gauge.1)
      fun k => exists_event_of_entering horderly]
  rfl

end

/-! ## What is counted is running -/

namespace Monitor

/-- Streams are of stored runs, and the tasks counted are running in the last snapshot. -/
structure Tracked (w : Monitor) : Prop where
  keyed : ∀ id s, w.runs.get? id = some s → s.id = id
  stored : ∀ id, w.runs.get? id = none → w.latest id = none
  ofRun : ∀ id s, w.latest id = some s → s.id = id
  running : ∀ task ∈ w.entered, ∃ s, w.latest task.1 = some s ∧
    (taskStatuses s).get? task.2 = some .running

theorem tracked_initial : Tracked {} := ⟨nofun, fun _ _ => rfl, nofun, nofun⟩

section

variable {w w' : Monitor} {snapshot previous : WorkflowRunSnapshot}

theorem seenBefore_eq_some {id : RunID} (h : w.seenBefore id = some previous) :
    w.broker.closed = false ∧ w.latest id = some previous := by
  unfold seenBefore at h
  split at h
  · cases h
  · rename_i hopen
    exact ⟨Bool.eq_false_iff.mpr hopen, h⟩

theorem mem_see (h : task ∈ w.see snapshot) :
    (task ∈ w.entered ∧ ∀ previous ∈ w.seenBefore snapshot.id, task ∉ leaving previous snapshot) ∨
      ∃ previous ∈ w.seenBefore snapshot.id, task ∈ entering previous snapshot := by
  unfold Monitor.see at h
  split at h
  · rename_i hnone
    exact .inl ⟨h, by rw [hnone]; nofun⟩
  · rename_i previous hsome
    rcases Finset.mem_union.mp h with h | h
    · obtain ⟨hentered, hstays⟩ := Finset.mem_sdiff.mp h
      refine .inl ⟨hentered, fun previous' hprevious' => ?_⟩
      rw [hsome] at hprevious'
      cases hprevious'
      exact hstays
    · exact .inr ⟨previous, hsome, h⟩

theorem mem_entering : task ∈ entering previous snapshot ↔
    task.1 = snapshot.id ∧ (taskStatuses previous).get? task.2 ≠ some .running ∧
      (taskStatuses snapshot).get? task.2 = some .running := by
  rw [entering, mem_tasksWhere, entersRunning, decide_eq_true_eq, and_assoc]
  refine and_congr_right fun _ => ⟨And.right, fun h => ⟨by rw [h.2]; rfl, h⟩⟩

theorem mem_leaving : task ∈ leaving previous snapshot ↔
    task.1 = previous.id ∧ (taskStatuses snapshot).get? task.2 ≠ some .running ∧
      (taskStatuses previous).get? task.2 = some .running := by
  rw [leaving, mem_tasksWhere, entersRunning, decide_eq_true_eq, and_assoc]
  refine and_congr_right fun _ => ⟨And.right, fun h => ⟨by rw [h.2]; rfl, h⟩⟩

/-- The state after a snapshot was stored and observed. -/
def observed (w : Monitor) (snapshot : WorkflowRunSnapshot) (m : Metrics) : Monitor where
  runs := w.runs.insert snapshot.id (nextVersion snapshot)
  broker := w.broker.observe (nextVersion snapshot)
  metrics := m
  entered := w.see snapshot

theorem latest_observed (hopen : w.broker.closed = false) (m : Metrics) (id : RunID) :
    (w.observed snapshot m).latest id =
      if snapshot.id = id then some (nextVersion snapshot) else w.latest id := by
  rw [Monitor.latest, Monitor.observed, (observe_get? hopen _ id).2,
    show (nextVersion snapshot).id = snapshot.id from rfl]
  split
  · split <;> rfl
  · rfl

theorem latest_observed_closed (hclosed : w.broker.closed = true) (m : Metrics) (id : RunID) :
    (w.observed snapshot m).latest id = w.latest id := by
  rw [Monitor.latest, Monitor.observed, EventBroker.observe, if_pos hclosed]
  rfl

theorem Tracked.observed (h : w.Tracked) (m : Metrics) : (w.observed snapshot m).Tracked where
  keyed := by
    intro id s hget
    rw [Monitor.observed, KeyMap.get?_insert] at hget
    split at hget
    · rename_i hid
      cases hget
      exact hid.symm
    · exact h.keyed id s hget
  stored := by
    intro id hget
    rw [Monitor.observed, KeyMap.get?_insert] at hget
    split at hget
    · cases hget
    · rename_i hid
      cases hclosed : w.broker.closed with
      | true =>
        rw [latest_observed_closed hclosed]
        exact h.stored id hget
      | false =>
        rw [latest_observed hclosed, if_neg (Ne.symm hid)]
        exact h.stored id hget
  ofRun := by
    intro id s hget
    cases hclosed : w.broker.closed with
    | true =>
      rw [latest_observed_closed hclosed] at hget
      exact h.ofRun id s hget
    | false =>
      rw [latest_observed hclosed] at hget
      split at hget
      · rename_i hid
        cases hget
        exact hid
      · exact h.ofRun id s hget
  running := by
    intro task htask
    cases hclosed : w.broker.closed with
    | true =>
      rw [latest_observed_closed hclosed]
      rw [Monitor.observed, Monitor.see, seenBefore, if_pos hclosed] at htask
      exact h.running task htask
    | false =>
      rw [latest_observed hclosed]
      rcases mem_see htask with ⟨hentered, hstays⟩ | ⟨previous, hprevious, hentering⟩
      · obtain ⟨s, hs, hrunning⟩ := h.running task hentered
        split
        · rename_i hid
          rw [seenBefore, if_neg (by rw [hclosed]; decide), hid] at hstays
          refine ⟨_, rfl, ?_⟩
          by_contra hnew
          exact hstays s hs (mem_leaving.mpr ⟨(h.ofRun _ s hs).symm, hnew, hrunning⟩)
        · exact ⟨s, hs, hrunning⟩
      · obtain ⟨hid, -, hrunning⟩ := mem_entering.mp hentering
        exact ⟨_, if_pos hid.symm, hrunning⟩

/-- What a step does: a snapshot is stored and observed, or nothing is counted. -/
theorem step_cases (hstep : w.step call = some w') :
    (∃ s, call = .createRun s ∧ s.validate = .ok () ∧ w.runs.get? s.id = none ∧
      w' = w.observed s w.metrics.workflowSubmitted) ∨
    (∃ s, call = .saveRun s ∧ s.validate = .ok () ∧
      w' = w.observed s (match w.broker.newEvents (nextVersion s) with
        | none => w.metrics
        | some (previous, events) =>
          recordRunEvents previous (nextVersion s) events w.metrics)) ∨
    (∃ id s, call = .seed id ∧ w.runs.get? id = some s ∧
      w' = { w with broker := w.broker.seed s }) ∨
    (call = .close ∧ w' = { w with broker := w.broker.close }) ∨
    (call = .restart ∧ w' = { runs := w.runs }) := by
  cases call with
  | createRun s =>
    obtain ⟨store, hstore, rfl⟩ := Option.map_eq_some_iff.mp hstep
    rw [ObservedStore.createRun] at hstore
    split at hstore
    · rename_i hc
      cases hstore
      exact .inl ⟨s, rfl, hc.1, hc.2.1, rfl⟩
    · cases hstore
  | saveRun s =>
    obtain ⟨store, hstore, rfl⟩ := Option.map_eq_some_iff.mp hstep
    rw [ObservedStore.saveRun] at hstore
    split at hstore
    · rename_i hc
      cases hstore
      exact .inr (.inl ⟨s, rfl, hc.1, rfl⟩)
    · cases hstore
  | seed id =>
    obtain ⟨s, hs, rfl⟩ := Option.map_eq_some_iff.mp hstep
    exact .inr (.inr (.inl ⟨id, s, rfl, hs, rfl⟩))
  | close =>
    cases hstep
    exact .inr (.inr (.inr (.inl ⟨rfl, rfl⟩)))
  | restart =>
    cases hstep
    exact .inr (.inr (.inr (.inr ⟨rfl, rfl⟩)))

/-- A reader may open a stream of a run that has none. -/
theorem latest_seed (s : WorkflowRunSnapshot) (id : RunID) :
    Monitor.latest { w with broker := w.broker.seed s } id = w.latest id ∨
      w.latest s.id = none ∧ s.id = id ∧
        Monitor.latest { w with broker := w.broker.seed s } id = some s := by
  simp only [Monitor.latest, EventBroker.seed]
  split
  · exact .inl rfl
  · rename_i hnew
    rw [KeyMap.get?_insert]
    split
    · rename_i hid
      refine .inr ⟨?_, hid.symm, rfl⟩
      rw [Bool.or_eq_true, not_or] at hnew
      rw [Option.not_isSome_iff_eq_none.mp hnew.2]
      rfl
    · exact .inl rfl

theorem Tracked.seed (h : w.Tracked) {id : RunID} (hs : w.runs.get? id = some snapshot) :
    Tracked { w with broker := w.broker.seed snapshot } where
  keyed := h.keyed
  stored := by
    intro id' hnone
    rcases latest_seed (w := w) snapshot id' with hsame | ⟨-, rfl, -⟩
    · rw [hsame]
      exact h.stored id' hnone
    · have hkey := h.keyed id snapshot hs
      rw [hkey, hs] at hnone
      cases hnone
  ofRun := by
    intro id' s hget
    rcases latest_seed (w := w) snapshot id' with hsame | ⟨-, hid, hseeded⟩
    · rw [hsame] at hget
      exact h.ofRun id' s hget
    · rw [hseeded] at hget
      cases hget
      exact hid
  running := by
    intro task htask
    obtain ⟨s, hs, hrunning⟩ := h.running task htask
    rcases latest_seed (w := w) snapshot task.1 with hsame | ⟨hnone, hid, -⟩
    · rw [hsame]
      exact ⟨s, hs, hrunning⟩
    · rw [hid, hs] at hnone
      cases hnone

theorem Tracked.step (h : w.Tracked) (hstep : w.step call = some w') :
    w'.Tracked := by
  rcases step_cases hstep with ⟨s, -, -, -, rfl⟩ | ⟨s, -, -, rfl⟩ | ⟨id, s, -, hs, rfl⟩ |
    ⟨-, rfl⟩ | ⟨-, rfl⟩
  · exact h.observed _
  · exact h.observed _
  · exact h.seed hs
  · exact ⟨h.keyed, h.stored, h.ofRun, h.running⟩
  · exact ⟨h.keyed, fun _ _ => rfl, nofun, nofun⟩

/-! ## When the gauge is right -/

/-- The snapshot saved follows the one seen before in order. -/
def InOrder (w : Monitor) : MonitorCall → Prop
  | .saveRun snapshot => ∀ previous ∈ w.seenBefore snapshot.id, Orderly previous snapshot
  | _ => True

/-- The tasks that lower the gauge were seen to enter the running status, or no other task
that was is still running. -/
def Covered (w : Monitor) : MonitorCall → Prop
  | .saveRun snapshot => ∀ previous ∈ w.seenBefore snapshot.id,
      lowered previous snapshot ⊆ w.entered ∨ w.entered ⊆ leaving previous snapshot
  | _ => True

instance (w : Monitor) : (call : MonitorCall) → Decidable (w.InOrder call)
  | .saveRun snapshot => inferInstanceAs (Decidable (∀ previous ∈ w.seenBefore snapshot.id, _))
  | .createRun _ | .seed _ | .close | .restart => isTrue trivial

instance (w : Monitor) : (call : MonitorCall) → Decidable (w.Covered call)
  | .saveRun snapshot => inferInstanceAs (Decidable (∀ previous ∈ w.seenBefore snapshot.id, _))
  | .createRun _ | .seed _ | .close | .restart => isTrue trivial

/-- The part of a run in the count. -/
def contributed (w : Monitor) (id : RunID) : Nat := (w.entered.filter fun task => task.1 = id).card

/-- A running task that leaves in order is struck off, and no other running task is. -/
theorem mem_lowered_iff (horderly : Orderly previous snapshot)
    (hvalid : ValidSnapshot snapshot) (hid : previous.id = snapshot.id)
    (hold : task.1 = snapshot.id → (taskStatuses previous).get? task.2 = some .running) :
    task ∈ lowered previous snapshot ↔ task ∈ leaving previous snapshot := by
  rw [lowered, mem_tasksWhere, mem_leaving, hid]
  constructor
  · rintro ⟨⟨htask, hsome⟩, hlowers⟩
    obtain ⟨new, hnew⟩ := Option.isSome_iff_exists.mp hsome
    rw [hold htask, hnew] at hlowers
    refine ⟨htask, ?_, hold htask⟩
    rw [hnew]
    exact fun heq => (change_of_lowersGauge hlowers).2.2.2 (Option.some.inj heq)
  · rintro ⟨htask, hleft, hrunning⟩
    have hsome := horderly.isSome task.2
    rw [hrunning] at hsome
    obtain ⟨new, hnew⟩ := Option.isSome_iff_exists.mp hsome.symm
    have hback := horderly.notBack task.2 ((KeyMap.mem_keys_iff _ _).mpr (by rw [hrunning]; rfl))
      hrunning
    obtain ⟨t, ht, -, rfl⟩ := task_of_status hnew
    have hstatus := (hvalid.taskRuns t ht).status
    rw [hnew] at hback hleft
    refine ⟨⟨htask, hsome.symm⟩, ?_⟩
    rw [hrunning, hnew]
    cases hnow : t.status <;> simp_all [lowersGauge, TaskRunStatus.valid]

theorem Tracked.counts_saved (h : w.Tracked) (hcounts : w.Counts)
    (hvalid : ValidSnapshot snapshot) (hprevious : w.seenBefore snapshot.id = some previous)
    (horderly : Orderly previous snapshot) :
    w.metrics.runningTasks - (lowered previous snapshot).card + (entering previous snapshot).card =
        (w.see snapshot).card ↔
      lowered previous snapshot ⊆ w.entered ∨ w.entered ⊆ leaving previous snapshot := by
  have hlatest := (seenBefore_eq_some hprevious).2
  have hid := h.ofRun _ _ hlatest
  have hrunning : ∀ task ∈ w.entered, task.1 = snapshot.id →
      (taskStatuses previous).get? task.2 = some .running := by
    intro task htask heq
    obtain ⟨s, hs, hstatus⟩ := h.running task htask
    rw [heq, hlatest] at hs
    cases hs
    exact hstatus
  have hcoming : Disjoint w.entered (entering previous snapshot) := by
    refine Finset.disjoint_left.mpr fun task htask hentering => ?_
    obtain ⟨heq, hold, -⟩ := mem_entering.mp hentering
    exact hold (hrunning task htask heq)
  have hsee : w.see snapshot =
      w.entered \ leaving previous snapshot ∪ entering previous snapshot := by
    rw [Monitor.see, hprevious]
  rw [hsee, show w.metrics.runningTasks = w.entered.card from hcounts]
  exact card_balance (fun task htask => mem_lowered_iff horderly hvalid hid (hrunning task htask))
    hcoming

/-- A snapshot makes events where there is one to compare it with. -/
theorem newEvents_of_seenBefore_none (h : w.seenBefore snapshot.id = none) :
    w.broker.newEvents (nextVersion snapshot) = none := by
  unfold seenBefore Monitor.latest at h
  unfold EventBroker.newEvents
  split at h
  · rename_i hclosed
    rw [if_pos hclosed]
  · rename_i hopen
    rw [if_neg hopen, show (nextVersion snapshot).id = snapshot.id from rfl,
      Option.map_eq_none_iff.mp h]
    rfl

theorem newEvents_of_seenBefore (h : w.seenBefore snapshot.id = some previous) :
    ∃ n, w.broker.newEvents (nextVersion snapshot) =
      some (previous, numberEvents n (deriveRunEvents previous (nextVersion snapshot))) := by
  obtain ⟨hopen, hlatest⟩ := seenBefore_eq_some h
  obtain ⟨stream, hstream, rfl⟩ := Option.map_eq_some_iff.mp hlatest
  refine ⟨stream.events.length + 1, ?_⟩
  rw [EventBroker.newEvents, if_neg (by rw [hopen]; decide),
    show (nextVersion snapshot).id = snapshot.id from rfl, hstream]
  rfl

/-- A step keeps the gauge right if it is covered, and only then. -/
theorem Tracked.counts_step (h : w.Tracked) (hcounts : w.Counts)
    (horder : w.InOrder call) (hstep : w.step call = some w') :
    w'.Counts ↔ w.Covered call := by
  rcases step_cases hstep with ⟨s, rfl, -, hnew, rfl⟩ | ⟨s, rfl, hvalid, rfl⟩ |
    ⟨id, s, rfl, -, rfl⟩ | ⟨rfl, rfl⟩ | ⟨rfl, rfl⟩
  · have hsee : w.see s = w.entered := by
      have hnone : w.seenBefore s.id = none := by
        rw [seenBefore, h.stored s.id hnew, ite_self]
      rw [Monitor.see, hnone]
    refine iff_of_true ?_ trivial
    rw [Counts, Monitor.observed, hsee]
    exact hcounts
  · have hv := (WorkflowRunSnapshot.validate_ok_iff s).mp hvalid
    cases hseen : w.seenBefore s.id with
    | none =>
      refine iff_of_true ?_ fun previous hprevious => ?_
      · rw [newEvents_of_seenBefore_none hseen, Counts, Monitor.observed, Monitor.see, hseen]
        exact hcounts
      · rw [hseen] at hprevious
        cases hprevious
    | some previous =>
      have horderly := horder previous hseen
      have hgauge : ∀ n m, (recordRunEvents previous (nextVersion s)
          (numberEvents n (deriveRunEvents previous (nextVersion s))) m).runningTasks =
          m.runningTasks - (lowered previous s).card + (entering previous s).card :=
        runningTasks_recordRunEvents hv.taskIDs ⟨horderly.sameTasks, horderly.notBack⟩
      obtain ⟨n, hevents⟩ := newEvents_of_seenBefore hseen
      rw [hevents, Counts, Monitor.observed]
      dsimp only
      rw [hgauge]
      refine (h.counts_saved hcounts hv hseen horderly).trans ⟨?_, fun hcovered =>
        hcovered previous hseen⟩
      intro hcovered previous' hprevious'
      rw [hseen] at hprevious'
      cases hprevious'
      exact hcovered
  · exact iff_of_true hcounts trivial
  · exact iff_of_true hcounts trivial
  · exact iff_of_true rfl trivial

/-- Seeing a snapshot changes the part of its own run only. -/
theorem Tracked.others_see (h : w.Tracked) :
    ((w.see snapshot).filter fun task => task.1 ≠ snapshot.id) =
      w.entered.filter fun task => task.1 ≠ snapshot.id := by
  unfold Monitor.see
  split
  · rfl
  · rename_i previous hprevious
    have hid := h.ofRun _ _ (seenBefore_eq_some hprevious).2
    ext task
    simp only [Finset.mem_filter, Finset.mem_union, Finset.mem_sdiff, mem_entering, mem_leaving,
      hid]
    tauto

theorem card_entered (w : Monitor) (id : RunID) :
    w.entered.card = w.contributed id + (w.entered.filter fun task => task.1 ≠ id).card :=
  (Finset.card_filter_add_card_filter_not _).symm

/-- An event of one run changes the gauge by what it changes in the part of that run. -/
theorem Tracked.own_part (h : w.Tracked) (hcounts : w.Counts) (hcounts' : w'.Counts)
    (hstep : w.step (.saveRun snapshot) = some w') :
    w'.metrics.runningTasks + w.contributed snapshot.id =
      w.metrics.runningTasks + w'.contributed snapshot.id := by
  have hothers : (w'.entered.filter fun task => task.1 ≠ snapshot.id) =
      w.entered.filter fun task => task.1 ≠ snapshot.id := by
    obtain ⟨store, -, rfl⟩ := Option.map_eq_some_iff.mp hstep
    exact h.others_see
  have hbefore := w.card_entered snapshot.id
  have hafter := w'.card_entered snapshot.id
  rw [hothers] at hafter
  rw [Counts] at hcounts hcounts'
  omega

/-- Where snapshots of a run follow each other in order and no task lowers the gauge that was
not seen to enter the running status, the gauge is the number of tasks that were seen to
enter it and not to leave it, and an event of a run changes the part of that run only. A
step in order that is not covered makes the gauge wrong. -/
theorem gauge_counts_tasks_seen_running {labels : List MonitorCall}
    (hmeets : Meets Monitor.step (fun w call => w.InOrder call ∧ w.Covered call) {} labels)
    (hrun : runLabels Monitor.step {} labels = some w) :
    w.metrics.runningTasks = w.entered.card ∧
      ∀ call w', w.InOrder call → w.step call = some w' →
        (w'.metrics.runningTasks = w'.entered.card ↔ w.Covered call) ∧
        ∀ s, call = .saveRun s → w.Covered call →
          w'.metrics.runningTasks + w.contributed s.id =
            w.metrics.runningTasks + w'.contributed s.id := by
  have hinv : w.Tracked ∧ w.Counts := by
    refine hmeets.invariant (I := fun w => w.Tracked ∧ w.Counts) ?_ ⟨tracked_initial, rfl⟩ hrun
    rintro w call w' ⟨horder, hcovered⟩ hstep ⟨htracked, hcounts⟩
    exact ⟨htracked.step hstep, (htracked.counts_step hcounts horder hstep).mpr hcovered⟩
  obtain ⟨htracked, hcounts⟩ := hinv
  refine ⟨hcounts, fun call w' horder hstep => ?_⟩
  have hiff := htracked.counts_step hcounts horder hstep
  refine ⟨hiff, ?_⟩
  rintro s rfl hcovered
  exact htracked.own_part hcounts (hiff.mpr hcovered) hstep

end

def submittedRun (id : RunID) : WorkflowRun where
  id := id
  definition := sampleDefinition
  version := 0
  status := .pending
  tasks := KeyMap.ofList [
    (ascii "a", newTaskRun id 1 (ascii "a")), (ascii "b", newTaskRun id 1 (ascii "b"))]
  workers := ∅
  createdAt := 1
  updatedAt := 1

def startedRun (id : RunID) : WorkflowRun := (submittedRun id).applyAll
  [.persisted 1, .startWorkflow 2, .markNewReady fun _ => 2,
    .recordWorkerHeartbeat (ascii "w") 10 2]

/-- The first task is running. -/
def busyRun (id : RunID) : WorkflowRun := (startedRun id).applyAll
  [.persisted 2, .startTaskAttempt (ascii "a") (ascii "w") 10 3]

def renewedRun (id : RunID) : WorkflowRun := (busyRun id).applyAll
  [.persisted 3, .recordWorkerHeartbeat (ascii "w") 10 4]

def advancedRun (id : RunID) : WorkflowRun := (renewedRun id).applyAll
  [.persisted 4, .completeTaskAttempt (ascii "a") (taskRunIDFor id (ascii "a")) (ascii "w")
    (attemptIDFor (taskRunIDFor id (ascii "a")) 1) [] none 5]

/-- A run up to its first running task. -/
def untilBusy (id : RunID) : List MonitorCall :=
  [.createRun (submittedRun id).snapshot, .saveRun (startedRun id).snapshot,
    .saveRun (busyRun id).snapshot]

/-- The same run until that task has succeeded. -/
def untilAdvanced (id : RunID) : List MonitorCall :=
  [.saveRun (renewedRun id).snapshot, .saveRun (advancedRun id).snapshot]

theorem gauge_counts_tasks_seen_running_untilBusy : ∃ w,
    Meets Monitor.step (fun w call => w.InOrder call ∧ w.Covered call) {} (untilBusy (ascii "r")) ∧
      runLabels Monitor.step {} (untilBusy (ascii "r")) = some w ∧
      w.metrics.runningTasks = 1 ∧ w.metrics.runningTasks = w.entered.card := by
  have hmeets : Meets Monitor.step (fun w call => w.InOrder call ∧ w.Covered call) {}
      (untilBusy (ascii "r")) := by
    decide +kernel
  obtain ⟨w, hw, hgauge⟩ := exists_of_runLabels Monitor.step {} (untilBusy (ascii "r"))
    (fun w => w.metrics.runningTasks = 1) (by decide +kernel)
  exact ⟨w, hmeets, hw, hgauge, (gauge_counts_tasks_seen_running hmeets hw).1⟩

/-- Two runs, the second of which was under way before the process started. -/
def resumedBesideAnother : List MonitorCall :=
  untilBusy (ascii "s") ++ [.restart] ++ untilBusy (ascii "r") ++ untilAdvanced (ascii "s")

/-- When the task of the resumed run succeeds, the gauge loses the running task of the other
run. -/
theorem resumedBesideAnother_gauge_lost : ∃ w,
    runLabels Monitor.step {} resumedBesideAnother = some w ∧
      Meets Monitor.step InOrder {} resumedBesideAnother ∧
      w.entered = {(ascii "r", ascii "a")} ∧ w.metrics.runningTasks = 0 := by
  obtain ⟨w, hw, hentered, hgauge⟩ := exists_of_runLabels Monitor.step {} resumedBesideAnother
    (fun w => w.entered = {(ascii "r", ascii "a")} ∧ w.metrics.runningTasks = 0)
    (by decide +kernel)
  exact ⟨w, hw, by decide +kernel, hentered, hgauge⟩

end Monitor

end ForgeFlow.Api
