import ForgeFlow.Execution.Store

/-!
# The event stream of a run

The server derives events from every snapshot it stores and the one before it, and
keeps them for the readers of the stream. A reader gets what came after the last
event it has seen, over and over until the run has ended.
-/

namespace ForgeFlow.Api

open ForgeFlow.Base ForgeFlow.Workflow ForgeFlow.Execution

variable {e : RunEvent} {id : RunID} {broker : EventBroker}

inductive RunEventType where
  | workflowStarted
  | taskReady
  | taskStarted
  | taskSucceeded
  | taskFailed
  | taskCanceled
  | retryScheduled
  | workflowCompleted
  | runSnapshot
  deriving DecidableEq

/-- An event as a reader gets it; a status that is left out is `none`. -/
structure RunEvent where
  sequence : Nat := 0
  type : RunEventType
  runID : RunID
  workflowID : WorkflowID
  taskID : TaskID := []
  status : Option WorkflowRunStatus := none
  taskStatus : Option TaskRunStatus := none
  attemptID : AttemptID := []
  occurredAt : Int
  deriving DecidableEq

/-- The kind of event a task's new status makes, and its place among the others. -/
def taskTransitionEvent (source : TaskRunStatus) : TaskRunStatus → Option (RunEventType × Nat)
  | .succeeded => some (.taskSucceeded, 1)
  | .failed => some (.taskFailed, 1)
  | .canceled => some (.taskCanceled, 1)
  | .retryWaiting => some (.retryScheduled, 1)
  | .ready => if source = .running then some (.retryScheduled, 1) else some (.taskReady, 2)
  | .running => some (.taskStarted, 3)
  | .pending | .other _ => none

/-- An event about the run as a whole. -/
def workflowEvent (type : RunEventType) (current : WorkflowRunSnapshot) : RunEvent where
  type := type
  runID := current.id
  workflowID := current.workflowID
  status := some current.status
  occurredAt := current.updatedAt

/-- The events of the tasks whose status changed, with their priorities. -/
def taskEvents (previous current : WorkflowRunSnapshot) : List (Nat × RunEvent) :=
  let previousTasks := KeyMap.ofList (previous.tasks.map fun task => (task.taskID, task))
  current.tasks.filterMap fun task =>
    match previousTasks.get? task.taskID with
    | none => none
    | some old =>
      if old.status = task.status then none
      else (taskTransitionEvent old.status task.status).map fun (type, priority) =>
        (priority, {
          type := type
          runID := current.id
          workflowID := current.workflowID
          taskID := task.taskID
          taskStatus := some task.status
          attemptID := task.currentAttemptID
          occurredAt := task.updatedAt })

/-- The order of the task events: by priority, then by task. -/
def taskEventLE (left right : Nat × RunEvent) : Bool :=
  left.1 < right.1 || (left.1 = right.1 && left.2.taskID ≤ right.2.taskID)

def sortedTaskEvents (previous current : WorkflowRunSnapshot) : List RunEvent :=
  ((taskEvents previous current).insertionSort fun left right => taskEventLE left right = true).map
    Prod.snd

def startedEvents (previous current : WorkflowRunSnapshot) : List RunEvent :=
  if previous.status ≠ .running ∧ current.status = .running then
    [workflowEvent .workflowStarted current]
  else []

def completedEvents (previous current : WorkflowRunSnapshot) : List RunEvent :=
  if previous.status ≠ current.status ∧ current.status.terminal = true then
    [workflowEvent .workflowCompleted current]
  else []

def deriveRunEvents (previous current : WorkflowRunSnapshot) : List RunEvent :=
  startedEvents previous current ++ sortedTaskEvents previous current ++
    completedEvents previous current

structure RunEventStream where
  latest : WorkflowRunSnapshot
  events : List RunEvent := []
  deriving DecidableEq

structure EventBroker where
  streams : KeyMap RunID RunEventStream := ∅
  closed : Bool := false
  deriving DecidableEq

/-- Number new events from the place where they are appended. -/
def numberEvents : Nat → List RunEvent → List RunEvent
  | _, [] => []
  | sequence, event :: rest => { event with sequence := sequence } :: numberEvents (sequence + 1) rest

def RunEventStream.observe (stream : RunEventStream) (snapshot : WorkflowRunSnapshot) :
    RunEventStream where
  latest := snapshot
  events := stream.events ++
    numberEvents (stream.events.length + 1) (deriveRunEvents stream.latest snapshot)

namespace EventBroker

def observe (broker : EventBroker) (snapshot : WorkflowRunSnapshot) : EventBroker :=
  if broker.closed then broker
  else
    { broker with
      streams := broker.streams.insert snapshot.id <|
        match broker.streams.get? snapshot.id with
        | none => { latest := snapshot }
        | some stream => stream.observe snapshot }

/-- A stream for a run that this process has not stored a snapshot of. -/
def seed (broker : EventBroker) (snapshot : WorkflowRunSnapshot) : EventBroker :=
  if broker.closed || broker.streams.contains snapshot.id then broker
  else
    { broker with
      streams := broker.streams.insert snapshot.id {
        latest := snapshot
        events := [{ workflowEvent .runSnapshot snapshot with sequence := 1 }] } }

def close (broker : EventBroker) : EventBroker := { broker with closed := true }

/-- The events after a sequence number, and whether more can come. -/
def eventsAfter (broker : EventBroker) (runID : RunID) (sequence : Nat) : List RunEvent × Bool :=
  match broker.streams.get? runID with
  | none => ([], !broker.closed)
  | some stream =>
    (stream.events.drop sequence, !(stream.latest.status.terminal || broker.closed))

end EventBroker

/-- The loop of `handleRunEvents`, with the broker as each pass finds it. -/
def streamedEvents (runID : RunID) : List EventBroker → Nat → List RunEvent
  | [], _ => []
  | broker :: rest, sequence =>
    let (events, more) := broker.eventsAfter runID sequence
    events ++
      if more then
        streamedEvents runID rest ((events.getLast?.map RunEvent.sequence).getD sequence)
      else []

/-! ## Events stand in the stream of their run -/

/-- A derived event is not numbered yet, and is about the run. -/
theorem mem_deriveRunEvents {previous current : WorkflowRunSnapshot}
    (h : e ∈ deriveRunEvents previous current) : e.sequence = 0 ∧ e.runID = current.id := by
  simp only [deriveRunEvents, List.mem_append] at h
  rcases h with (h | h) | h
  · unfold startedEvents at h
    split at h
    · rw [List.mem_singleton.mp h]
      exact ⟨rfl, rfl⟩
    · cases h
  · obtain ⟨⟨priority, e'⟩, hmem, rfl⟩ := List.mem_map.mp h
    rw [List.mem_insertionSort] at hmem
    obtain ⟨task, -, htask⟩ := List.mem_filterMap.mp hmem
    split at htask
    · cases htask
    · split at htask
      · cases htask
      · obtain ⟨transition, -, he⟩ := Option.map_eq_some_iff.mp htask
        cases he
        exact ⟨rfl, rfl⟩
  · unfold completedEvents at h
    split at h
    · rw [List.mem_singleton.mp h]
      exact ⟨rfl, rfl⟩
    · cases h

theorem runID_of_mem_numberEvents :
    ∀ {events : List RunEvent} (n : Nat), (∀ e ∈ events, e.runID = id) →
      ∀ e ∈ numberEvents n events, e.runID = id
  | [], _, _ => fun _ he => absurd he List.not_mem_nil
  | event :: rest, n, h => by
    intro e he
    rcases List.mem_cons.mp he with rfl | he
    · exact h event List.mem_cons_self
    · exact runID_of_mem_numberEvents (n + 1) (fun e he => h e (List.mem_cons_of_mem _ he)) e he

namespace EventBroker

/-- Every event stands in the stream of the run it is about. -/
def Filed (broker : EventBroker) : Prop :=
  ∀ id stream, broker.streams.get? id = some stream → ∀ e ∈ stream.events, e.runID = id

theorem filed_empty : Filed {} := by
  intro id stream hget
  cases hget

theorem Filed.insert (h : broker.Filed)
    {stream : RunEventStream} (hs : ∀ e ∈ stream.events, e.runID = id) :
    Filed { broker with streams := broker.streams.insert id stream } := by
  intro id' stream' hget
  rw [KeyMap.get?_insert] at hget
  split at hget
  · rename_i hid
    cases hget
    rw [hid]
    exact hs
  · exact h id' stream' hget

theorem Filed.observe (h : broker.Filed)
    (snapshot : WorkflowRunSnapshot) : (broker.observe snapshot).Filed := by
  unfold EventBroker.observe
  split
  · exact h
  · refine h.insert ?_
    cases hstream : broker.streams.get? snapshot.id with
    | none => exact fun _ he => absurd he List.not_mem_nil
    | some stream =>
      intro e he
      rcases List.mem_append.mp he with he | he
      · exact h _ stream hstream e he
      · exact runID_of_mem_numberEvents _ (fun e he => (mem_deriveRunEvents he).2) e he

theorem Filed.seed (h : broker.Filed)
    (snapshot : WorkflowRunSnapshot) : (broker.seed snapshot).Filed := by
  unfold EventBroker.seed
  split
  · exact h
  · refine h.insert fun e he => ?_
    rw [List.mem_singleton.mp he]
    rfl

theorem mem_eventsAfter {n : Nat} (he : e ∈ (broker.eventsAfter id n).1) :
    ∃ stream, broker.streams.get? id = some stream ∧ e ∈ stream.events := by
  unfold EventBroker.eventsAfter at he
  cases hstream : broker.streams.get? id with
  | none =>
    rw [hstream] at he
    cases he
  | some stream =>
    rw [hstream] at he
    exact ⟨stream, rfl, List.mem_of_mem_drop he⟩

end EventBroker

/-- What is streamed of a run was in its stream when one of the passes looked. -/
theorem mem_streamedEvents :
    ∀ {brokers : List EventBroker} (n : Nat), e ∈ streamedEvents id brokers n →
      ∃ b ∈ brokers, ∃ stream, b.streams.get? id = some stream ∧ e ∈ stream.events
  | [], _, he => absurd he List.not_mem_nil
  | broker :: rest, n, he => by
    simp only [streamedEvents, List.mem_append] at he
    rcases he with he | he
    · exact ⟨broker, List.mem_cons_self, EventBroker.mem_eventsAfter he⟩
    · split at he
      · obtain ⟨b, hb, hstream⟩ := mem_streamedEvents _ he
        exact ⟨b, List.mem_cons_of_mem _ hb, hstream⟩
      · cases he

end ForgeFlow.Api
