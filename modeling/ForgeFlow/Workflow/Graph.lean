import Mathlib.Data.List.Sort
import ForgeFlow.Base.Checks
import ForgeFlow.Base.KeyMap
import ForgeFlow.Workflow.Definition

/-!
# The dependency graph of a workflow

`buildDependencyGraph` performs every structural check, `topologicalOrder` is
the smallest-first removal of tasks without open dependencies, and `readyTasks`
selects what a set of completed tasks unlocks. The heap of the source always
pops its least element and never holds equal ones, so it is a sorted list here.
-/

namespace ForgeFlow.Workflow

open ForgeFlow.Base

variable {d : WorkflowDefinition}

inductive ValidationCode where
  | invalidWorkflowID
  | emptyWorkflow
  | invalidTaskID
  | invalidTaskName
  | duplicateTaskID
  | invalidDependencyID
  | missingDependency
  | selfDependency
  | duplicateDependency
  | cycle
  | unknownCompletedTask
  | invalidRetryPolicy
  deriving DecidableEq

structure ValidationError where
  code : ValidationCode
  workflowID : WorkflowID
  taskID : TaskID := []
  dependencyID : TaskID := []
  reason : GoString := []
  deriving DecidableEq

structure DependencyGraph where
  tasks : KeyMap TaskID TaskDefinition
  taskIDs : List TaskID
  indegree : KeyMap TaskID Int
  dependents : KeyMap TaskID (List TaskID)

def validIdentifier (identifier : GoString) : Bool := plainIdentifier identifier

def sortTaskIDs (taskIDs : List TaskID) : List TaskID := taskIDs.insertionSort (· ≤ ·)

def invalidRetryPolicyReason (policy : RetryPolicy) : GoString :=
  if policy.maxAttempts < 0 then ascii "maximum attempts must not be negative"
  else if policy.initialBackoff < 0 then ascii "initial backoff must not be negative"
  else if policy.maxBackoff < 0 then ascii "maximum backoff must not be negative"
  else if 0 < policy.maxBackoff ∧ policy.maxBackoff < policy.initialBackoff then
    ascii "maximum backoff must not be less than initial backoff"
  else []

/-- The checks on one task, in order. -/
def checkTask (definition : WorkflowDefinition) (graph : DependencyGraph)
    (task : TaskDefinition) : Except ValidationError Unit :=
  firstError [
    (!validIdentifier task.id,
      { code := .invalidTaskID, workflowID := definition.id, taskID := task.id }),
    (trimSpace task.name = [],
      { code := .invalidTaskName, workflowID := definition.id, taskID := task.id }),
    (invalidRetryPolicyReason task.retry ≠ [],
      { code := .invalidRetryPolicy, workflowID := definition.id, taskID := task.id,
        reason := invalidRetryPolicyReason task.retry }),
    (graph.tasks.contains task.id,
      { code := .duplicateTaskID, workflowID := definition.id, taskID := task.id })]

def DependencyGraph.addTask (graph : DependencyGraph) (task : TaskDefinition) :
    DependencyGraph :=
  { graph with
    tasks := graph.tasks.insert task.id task
    taskIDs := graph.taskIDs ++ [task.id]
    indegree := graph.indegree.insert task.id 0 }

/-- The first loop of `buildDependencyGraph`. -/
def addTasks (definition : WorkflowDefinition) :
    List TaskDefinition → DependencyGraph → Except ValidationError DependencyGraph
  | [], graph => .ok graph
  | task :: rest, graph =>
    (checkTask definition graph task).bind fun _ =>
      addTasks definition rest (graph.addTask task)

/-- The checks on one dependency of a task, in order. -/
def checkDependency (definition : WorkflowDefinition) (graph : DependencyGraph)
    (task : TaskDefinition) (seenDependencies : KeyMap TaskID Unit) (dependencyID : TaskID) :
    Except ValidationError Unit :=
  let failure (code : ValidationCode) : ValidationError :=
    { code := code, workflowID := definition.id, taskID := task.id,
      dependencyID := dependencyID }
  firstError [
    (!validIdentifier dependencyID, failure .invalidDependencyID),
    (dependencyID = task.id, failure .selfDependency),
    (seenDependencies.contains dependencyID, failure .duplicateDependency),
    (!graph.tasks.contains dependencyID, failure .missingDependency)]

/-- Record one dependency edge. -/
def DependencyGraph.addEdge (graph : DependencyGraph) (taskID dependencyID : TaskID) :
    DependencyGraph :=
  { graph with
    indegree := graph.indegree.insert taskID ((graph.indegree.get? taskID).getD 0 + 1)
    dependents := graph.dependents.insert dependencyID
      ((graph.dependents.get? dependencyID).getD [] ++ [taskID]) }

def addDependencies (definition : WorkflowDefinition) (task : TaskDefinition) :
    List TaskID → KeyMap TaskID Unit → DependencyGraph →
      Except ValidationError DependencyGraph
  | [], _, graph => .ok graph
  | dependencyID :: rest, seenDependencies, graph =>
    (checkDependency definition graph task seenDependencies dependencyID).bind fun _ =>
      addDependencies definition task rest (seenDependencies.insert dependencyID ())
        (graph.addEdge task.id dependencyID)

/-- The second loop of `buildDependencyGraph`. A missing entry would read as a
task without dependencies. -/
def addEdges (definition : WorkflowDefinition) :
    List TaskID → DependencyGraph → Except ValidationError DependencyGraph
  | [], graph => .ok graph
  | taskID :: rest, graph =>
    match graph.tasks.get? taskID with
    | none => addEdges definition rest graph
    | some task =>
      (addDependencies definition task task.dependencies.elems ∅ graph).bind fun graph =>
        addEdges definition rest graph

def buildDependencyGraph (definition : WorkflowDefinition) :
    Except ValidationError DependencyGraph :=
  (firstError [
    (!validIdentifier definition.id,
      { code := .invalidWorkflowID, workflowID := definition.id }),
    (definition.tasks = [],
      { code := .emptyWorkflow, workflowID := definition.id })]).bind fun _ =>
  (addTasks definition definition.tasks ⟨∅, [], ∅, ∅⟩).bind fun graph =>
  let graph := { graph with taskIDs := sortTaskIDs graph.taskIDs }
  (addEdges definition graph.taskIDs graph).bind fun graph =>
  .ok { graph with dependents := graph.dependents.map fun _ ids => sortTaskIDs ids }

/-- Lower the open-dependency counts of a removed task's dependents and queue
those that reach zero. -/
def releaseDependents :
    List TaskID → KeyMap TaskID Int → List TaskID → KeyMap TaskID Int × List TaskID
  | [], remaining, ready => (remaining, ready)
  | dependentID :: rest, remaining, ready =>
    let count := (remaining.get? dependentID).getD 0 - 1
    releaseDependents rest (remaining.insert dependentID count)
      (if count = 0 then ready.orderedInsert (· ≤ ·) dependentID else ready)

/-- The removal loop; every round removes one task, so the number of tasks
bounds the rounds. -/
def topologicalLoop (graph : DependencyGraph) :
    Nat → KeyMap TaskID Int → List TaskID → List TaskID → List TaskID
  | rounds + 1, remaining, taskID :: ready, order =>
    let released :=
      releaseDependents ((graph.dependents.get? taskID).getD []) remaining ready
    topologicalLoop graph rounds released.1 released.2 (order ++ [taskID])
  | _, _, _, order => order

def DependencyGraph.topologicalOrder (graph : DependencyGraph) : List TaskID × Bool :=
  let ready := graph.taskIDs.filter fun id => (graph.indegree.get? id).getD 0 = 0
  let order :=
    topologicalLoop graph graph.taskIDs.length graph.indegree (sortTaskIDs ready) []
  (order, order.length = graph.taskIDs.length)

/-- The graph of a definition that also has a topological order. -/
def acyclicGraph (definition : WorkflowDefinition) : Except ValidationError DependencyGraph :=
  (buildDependencyGraph definition).bind fun graph =>
    if graph.topologicalOrder.2 then .ok graph
    else .error { code := .cycle, workflowID := definition.id }

namespace WorkflowDefinition

def topologicalOrder (definition : WorkflowDefinition) : Except ValidationError (List TaskID) :=
  (acyclicGraph definition).bind fun graph => .ok graph.topologicalOrder.1

def validate (definition : WorkflowDefinition) : Except ValidationError Unit :=
  definition.topologicalOrder.bind fun _ => .ok ()

def isAcyclic (definition : WorkflowDefinition) : Except ValidationError Bool :=
  (buildDependencyGraph definition).bind fun graph => .ok graph.topologicalOrder.2

def rootTasks (definition : WorkflowDefinition) : Except ValidationError (List TaskDefinition) :=
  (acyclicGraph definition).bind fun graph =>
    .ok ((graph.taskIDs.filter fun id => (graph.indegree.get? id).getD 0 = 0).filterMap
      graph.tasks.get?)

/-- Whether a task is not completed and all its dependencies are. -/
def unlocked (completed : KeyMap TaskID Unit) (task : TaskDefinition) : Bool :=
  !completed.contains task.id && task.dependencies.elems.all completed.contains

def readyTasks (definition : WorkflowDefinition) (completed : KeyMap TaskID Unit) :
    Except ValidationError (List TaskDefinition) :=
  (acyclicGraph definition).bind fun graph =>
    match completed.keys.filter fun id => !graph.tasks.contains id with
    | unknown :: _ =>
      .error { code := .unknownCompletedTask, workflowID := definition.id, taskID := unknown }
    | [] => .ok ((graph.taskIDs.filterMap graph.tasks.get?).filter (unlocked completed))

end WorkflowDefinition

/-- What the structural checks establish about one task on its own. -/
structure TaskWellFormed (task : TaskDefinition) : Prop where
  id_valid : validIdentifier task.id = true
  name : trimSpace task.name ≠ []
  retry : invalidRetryPolicyReason task.retry = []

/-- What they establish about its dependencies, among the given task IDs. -/
structure DependenciesWellFormed (ids : List TaskID) (task : TaskDefinition) : Prop where
  valid : ∀ id ∈ task.dependencies.elems, validIdentifier id = true
  not_self : task.id ∉ task.dependencies.elems
  nodup : task.dependencies.elems.Nodup
  defined : ∀ id ∈ task.dependencies.elems, id ∈ ids

/-- Everything `buildDependencyGraph` checks: all of validity but acyclicity. -/
structure WellFormed (definition : WorkflowDefinition) : Prop where
  id_valid : validIdentifier definition.id = true
  tasks_ne : definition.tasks ≠ []
  tasks : ∀ task ∈ definition.tasks, TaskWellFormed task
  ids_nodup : (definition.tasks.map TaskDefinition.id).Nodup
  dependencies : ∀ task ∈ definition.tasks,
    DependenciesWellFormed (definition.tasks.map TaskDefinition.id) task

theorem checkTask_ok_iff (d : WorkflowDefinition) (g : DependencyGraph) (t : TaskDefinition) :
    checkTask d g t = .ok () ↔ TaskWellFormed t ∧ g.tasks.get? t.id = none := by
  constructor
  · intro h
    simp [checkTask, KeyMap.contains] at h
    exact ⟨⟨h.1, h.2.1, h.2.2.1⟩, h.2.2.2⟩
  · rintro ⟨⟨hid, hname, hretry⟩, hnew⟩
    simp [checkTask, KeyMap.contains, hid, hname, hretry, hnew]

theorem addTasks_ok_iff (d : WorkflowDefinition) :
    ∀ (l : List TaskDefinition) (g g' : DependencyGraph),
      addTasks d l g = .ok g' ↔
        (∀ t ∈ l, TaskWellFormed t) ∧ (l.map TaskDefinition.id).Nodup ∧
        (∀ t ∈ l, g.tasks.get? t.id = none) ∧ g' = l.foldl DependencyGraph.addTask g
  | [], g, g' => by simp [addTasks, eq_comm]
  | t :: l, g, g' => by
    rw [addTasks, bind_unit_ok_iff, checkTask_ok_iff, addTasks_ok_iff d l]
    have hget : ∀ u : TaskDefinition, (g.addTask t).tasks.get? u.id =
        if u.id = t.id then some t else g.tasks.get? u.id := fun u => KeyMap.get?_insert _ _ _ _
    constructor
    · rintro ⟨⟨ht, hnew⟩, hl, hnd, hfresh, rfl⟩
      refine ⟨by simpa [ht] using hl, ?_, ?_, rfl⟩
      · rw [List.map_cons, List.nodup_cons]
        refine ⟨?_, hnd⟩
        intro hmem
        obtain ⟨u, hu, he⟩ := List.mem_map.mp hmem
        have := hfresh u hu
        rw [hget, if_pos he] at this
        cases this
      · intro u hu
        rcases List.mem_cons.mp hu with rfl | hu
        · exact hnew
        · have := hfresh u hu
          rw [hget] at this
          split at this
          · cases this
          · exact this
    · rintro ⟨hl, hnd, hfresh, rfl⟩
      rw [List.map_cons, List.nodup_cons] at hnd
      refine ⟨⟨hl t (by simp), hfresh t (by simp)⟩, fun u hu => hl u (by simp [hu]), hnd.2, ?_, rfl⟩
      intro u hu
      rw [hget, if_neg (fun he => hnd.1 (List.mem_map.mpr ⟨u, hu, he⟩))]
      exact hfresh u (by simp [hu])

theorem foldl_addTask_taskIDs :
    ∀ (l : List TaskDefinition) (g : DependencyGraph),
      (l.foldl DependencyGraph.addTask g).taskIDs = g.taskIDs ++ l.map TaskDefinition.id
  | [], g => by simp
  | t :: l, g => by
    rw [List.foldl_cons, foldl_addTask_taskIDs l]
    simp [DependencyGraph.addTask]

/-- A task is looked up under its own ID. -/
theorem foldl_addTask_get? (id : TaskID) (u : TaskDefinition) :
    ∀ (l : List TaskDefinition) (g : DependencyGraph), (l.map TaskDefinition.id).Nodup →
      ((l.foldl DependencyGraph.addTask g).tasks.get? id = some u ↔
        (u ∈ l ∧ u.id = id) ∨ (id ∉ l.map TaskDefinition.id ∧ g.tasks.get? id = some u))
  | [], g, _ => by simp
  | t :: l, g, h => by
    rw [List.map_cons, List.nodup_cons] at h
    rw [List.foldl_cons, foldl_addTask_get? id u l _ h.2, List.map_cons]
    have hget : (g.addTask t).tasks.get? id = if id = t.id then some t else g.tasks.get? id :=
      KeyMap.get?_insert _ _ _ _
    rw [hget]
    by_cases hid : id = t.id
    · subst hid
      simp only [if_true, Option.some.injEq, List.mem_cons, true_or, not_true_eq_false, false_and,
        or_false]
      constructor
      · rintro (⟨hu, he⟩ | ⟨_, rfl⟩)
        · exact ⟨.inr hu, he⟩
        · exact ⟨.inl rfl, rfl⟩
      · rintro ⟨rfl | hu, he⟩
        · exact .inr ⟨h.1, rfl⟩
        · exact .inl ⟨hu, he⟩
    · simp only [List.mem_cons, hid, false_or, if_false]
      constructor
      · rintro (⟨hu, he⟩ | hr)
        · exact .inl ⟨.inr hu, he⟩
        · exact .inr hr
      · rintro (⟨rfl | hu, he⟩ | hr)
        · exact absurd he.symm hid
        · exact .inl ⟨hu, he⟩
        · exact .inr hr

theorem addDependencies_ok_iff (d : WorkflowDefinition) (t : TaskDefinition) :
    ∀ (l : List TaskID) (seen : KeyMap TaskID Unit) (g g' : DependencyGraph),
      addDependencies d t l seen g = .ok g' ↔
        (∀ id ∈ l, validIdentifier id = true ∧ id ≠ t.id ∧ seen.get? id = none ∧
          (g.tasks.get? id).isSome) ∧ l.Nodup ∧
        g' = l.foldl (fun g id => g.addEdge t.id id) g
  | [], seen, g, g' => by
    constructor
    · intro h
      cases h
      simp
    · rintro ⟨-, -, rfl⟩
      rfl
  | id :: l, seen, g, g' => by
    rw [addDependencies, bind_unit_ok_iff, addDependencies_ok_iff d t l]
    have hc : checkDependency d g t seen id = .ok () ↔
        validIdentifier id = true ∧ id ≠ t.id ∧ seen.get? id = none ∧
          (g.tasks.get? id).isSome = true := by
      simp only [checkDependency, KeyMap.contains, firstError_cons, firstError_nil,
        Bool.not_eq_false', decide_eq_false_iff_not, Option.isSome_eq_false_iff,
        Option.isNone_iff_eq_none, ne_eq, and_true]
    have htasks : (g.addEdge t.id id).tasks = g.tasks := rfl
    rw [hc, htasks]
    constructor
    · rintro ⟨hid, hl, hnd, rfl⟩
      refine ⟨?_, ?_, rfl⟩
      · intro x hx
        rcases List.mem_cons.mp hx with rfl | hx
        · exact hid
        · obtain ⟨h1, h2, h3, h4⟩ := hl x hx
          rw [KeyMap.get?_insert] at h3
          split at h3
          · cases h3
          · exact ⟨h1, h2, h3, h4⟩
      · refine List.nodup_cons.mpr ⟨?_, hnd⟩
        intro hmem
        have h3 := (hl id hmem).2.2.1
        simp at h3
    · rintro ⟨hl, hnd, rfl⟩
      obtain ⟨hnot, hnd⟩ := List.nodup_cons.mp hnd
      refine ⟨hl id (by simp), ?_, hnd, rfl⟩
      intro x hx
      obtain ⟨h1, h2, h3, h4⟩ := hl x (by simp [hx])
      refine ⟨h1, h2, ?_, h4⟩
      have hne : x ≠ id := fun he => hnot (he ▸ hx)
      rw [KeyMap.get?_insert_ne _ _ hne]
      exact h3

theorem foldl_addEdge_frame (t : TaskID) :
    ∀ (l : List TaskID) (g : DependencyGraph),
      (l.foldl (fun g id => g.addEdge t id) g).tasks = g.tasks ∧
      (l.foldl (fun g id => g.addEdge t id) g).taskIDs = g.taskIDs
  | [], _ => ⟨rfl, rfl⟩
  | id :: l, g => foldl_addEdge_frame t l (g.addEdge t id)

/-- The edge loop accepts exactly well-formed dependencies and changes neither
the tasks nor their order. -/
theorem addEdges_ok_iff (d : WorkflowDefinition) :
    ∀ (ids : List TaskID) (g : DependencyGraph),
      (∃ g', addEdges d ids g = .ok g') ↔
        ∀ id ∈ ids, ∀ t, g.tasks.get? id = some t → DependenciesWellFormed g.tasks.keys t
  | [], g => by simp [addEdges]
  | id :: ids, g => by
    rw [addEdges]
    cases hget : g.tasks.get? id with
    | none =>
      simp only
      rw [addEdges_ok_iff d ids g]
      simp [hget]
    | some t =>
      simp only [bind_eq_ok, addDependencies_ok_iff]
      have hframe := foldl_addEdge_frame t.id t.dependencies.elems g
      have ih := addEdges_ok_iff d ids
        (t.dependencies.elems.foldl (fun g id => g.addEdge t.id id) g)
      rw [hframe.1] at ih
      have hdeps : ((∀ x ∈ t.dependencies.elems, validIdentifier x = true ∧ x ≠ t.id ∧
          (∅ : KeyMap TaskID Unit).get? x = none ∧ (g.tasks.get? x).isSome = true) ∧
          t.dependencies.elems.Nodup) ↔ DependenciesWellFormed g.tasks.keys t := by
        constructor
        · rintro ⟨hall, hnd⟩
          exact ⟨fun x hx => (hall x hx).1, fun hx => (hall _ hx).2.1 rfl, hnd,
            fun x hx => (KeyMap.mem_keys_iff _ _).mpr (hall x hx).2.2.2⟩
        · intro hw
          exact ⟨fun x hx => ⟨hw.valid x hx, fun he => hw.not_self (he ▸ hx), rfl,
            (KeyMap.mem_keys_iff _ _).mp (hw.defined x hx)⟩, hw.nodup⟩
      constructor
      · rintro ⟨g', a, ⟨hall, hnd, rfl⟩, hrest⟩
        intro x hx u hu
        rcases List.mem_cons.mp hx with rfl | hx
        · rw [hget] at hu
          cases hu
          exact hdeps.mp ⟨hall, hnd⟩
        · exact ih.mp ⟨g', hrest⟩ x hx u hu
      · intro hall
        obtain ⟨g', hg'⟩ := ih.mpr fun x hx u hu => hall x (by simp [hx]) u hu
        have hd := hdeps.mpr (hall id (by simp) t hget)
        exact ⟨g', _, ⟨hd.1, hd.2, rfl⟩, hg'⟩

theorem addEdges_frame (d : WorkflowDefinition) :
    ∀ (ids : List TaskID) (g g' : DependencyGraph), addEdges d ids g = .ok g' →
      g'.tasks = g.tasks ∧ g'.taskIDs = g.taskIDs
  | [], g, g', h => by
    simp only [addEdges, Except.ok.injEq] at h
    exact h ▸ ⟨rfl, rfl⟩
  | id :: ids, g, g', h => by
    rw [addEdges] at h
    cases hget : g.tasks.get? id with
    | none =>
      rw [hget] at h
      exact addEdges_frame d ids g g' h
    | some t =>
      rw [hget] at h
      obtain ⟨a, ha, hrest⟩ := bind_eq_ok.mp h
      obtain ⟨_, _, rfl⟩ := (addDependencies_ok_iff d t _ _ _ _).mp ha
      have hframe := foldl_addEdge_frame t.id t.dependencies.elems g
      have hrec := addEdges_frame d ids _ g' hrest
      exact ⟨hrec.1.trans hframe.1, hrec.2.trans hframe.2⟩

/-- The task table and the sorted IDs of a built graph, for a well-formed
definition. -/
structure GraphOf (definition : WorkflowDefinition) (graph : DependencyGraph) : Prop where
  wellFormed : WellFormed definition
  taskIDs : graph.taskIDs = sortTaskIDs (definition.tasks.map TaskDefinition.id)
  tasks : ∀ id task, graph.tasks.get? id = some task ↔ task ∈ definition.tasks ∧ task.id = id

theorem keys_of_tasks {m : KeyMap TaskID TaskDefinition}
    (h : ∀ id task, m.get? id = some task ↔ task ∈ d.tasks ∧ task.id = id) (id : TaskID) :
    id ∈ m.keys ↔ id ∈ d.tasks.map TaskDefinition.id := by
  rw [KeyMap.mem_keys_iff, Option.isSome_iff_exists, List.mem_map]
  exact exists_congr fun t => h id t

theorem buildDependencyGraph_ok {g : DependencyGraph}
    (h : buildDependencyGraph d = .ok g) : GraphOf d g := by
  obtain ⟨⟨⟩, hfirst, h⟩ := bind_eq_ok.mp h
  obtain ⟨g₁, hadd, h⟩ := bind_eq_ok.mp h
  obtain ⟨g₂, hedges, hg⟩ := bind_eq_ok.mp h
  obtain ⟨htasks, hnd, -, rfl⟩ := (addTasks_ok_iff d _ _ _).mp hadd
  simp only [firstError_cons, firstError_nil, Bool.not_eq_false', decide_eq_false_iff_not,
    and_true] at hfirst
  obtain ⟨hid, hne⟩ := hfirst
  obtain ⟨hf1, hf2⟩ := addEdges_frame d _ _ _ hedges
  cases hg
  have hget : ∀ id task, (d.tasks.foldl DependencyGraph.addTask ⟨∅, [], ∅, ∅⟩).tasks.get? id =
      some task ↔ task ∈ d.tasks ∧ task.id = id := by
    intro id task
    rw [foldl_addTask_get? id task d.tasks _ hnd]
    simp
  have hids := foldl_addTask_taskIDs d.tasks ⟨∅, [], ∅, ∅⟩
  have hdeps := (addEdges_ok_iff d _ _).mp ⟨_, hedges⟩
  have hsort : ∀ id, id ∈ sortTaskIDs ((d.tasks.foldl DependencyGraph.addTask
      ⟨∅, [], ∅, ∅⟩).taskIDs) ↔ id ∈ d.tasks.map TaskDefinition.id := by
    intro id
    rw [hids, sortTaskIDs, List.mem_insertionSort, List.nil_append]
  refine ⟨⟨hid, hne, htasks, hnd, ?_⟩, ?_, ?_⟩
  · intro t ht
    have hw := hdeps t.id ((hsort t.id).mpr (List.mem_map.mpr ⟨t, ht, rfl⟩)) t
      ((hget t.id t).mpr ⟨ht, rfl⟩)
    exact ⟨hw.valid, hw.not_self, hw.nodup,
      fun id hi => (keys_of_tasks hget id).mp (hw.defined id hi)⟩
  · simpa [hids] using hf2
  · intro id task
    change g₂.tasks.get? id = some task ↔ _
    rw [hf1]
    exact hget id task

/-- The structural checks accept exactly the well-formed definitions. -/
theorem buildDependencyGraph_ok_iff (d : WorkflowDefinition) :
    (∃ g, buildDependencyGraph d = .ok g) ↔ WellFormed d := by
  constructor
  · rintro ⟨g, hg⟩
    exact (buildDependencyGraph_ok hg).wellFormed
  · rintro ⟨hid, hne, htasks, hnd, hdeps⟩
    have hget : ∀ id task, (d.tasks.foldl DependencyGraph.addTask ⟨∅, [], ∅, ∅⟩).tasks.get? id =
        some task ↔ task ∈ d.tasks ∧ task.id = id := by
      intro id task
      rw [foldl_addTask_get? id task d.tasks _ hnd]
      simp
    obtain ⟨g₂, hg₂⟩ := (addEdges_ok_iff d
      (sortTaskIDs (d.tasks.foldl DependencyGraph.addTask ⟨∅, [], ∅, ∅⟩).taskIDs)
      { d.tasks.foldl DependencyGraph.addTask ⟨∅, [], ∅, ∅⟩ with
        taskIDs := sortTaskIDs (d.tasks.foldl DependencyGraph.addTask ⟨∅, [], ∅, ∅⟩).taskIDs }).mpr
      (by
        intro id _ t ht
        obtain ⟨hmem, -⟩ := (hget id t).mp ht
        have hw := hdeps t hmem
        exact ⟨hw.valid, hw.not_self, hw.nodup,
          fun x hx => (keys_of_tasks hget x).mpr (hw.defined x hx)⟩)
    refine ⟨{ g₂ with dependents := g₂.dependents.map fun _ ids => sortTaskIDs ids }, ?_⟩
    have ht : addTasks d d.tasks ⟨∅, [], ∅, ∅⟩ =
        .ok (d.tasks.foldl DependencyGraph.addTask ⟨∅, [], ∅, ∅⟩) :=
      (addTasks_ok_iff d d.tasks _ _).mpr ⟨htasks, hnd, fun _ _ => rfl, rfl⟩
    refine bind_eq_ok.mpr ⟨(), by simp [hid, hne], ?_⟩
    exact bind_eq_ok.mpr ⟨_, ht, bind_eq_ok.mpr ⟨g₂, hg₂, rfl⟩⟩

namespace WorkflowDefinition

theorem validate_ok_iff (d : WorkflowDefinition) :
    d.validate = .ok () ↔ ∃ g, acyclicGraph d = .ok g := by
  constructor
  · intro h
    obtain ⟨order, ho, -⟩ := bind_eq_ok.mp h
    obtain ⟨g, hg, -⟩ := bind_eq_ok.mp ho
    exact ⟨g, hg⟩
  · rintro ⟨g, hg⟩
    simp [validate, topologicalOrder, hg, Except.bind]

theorem acyclicGraph_ok {g : DependencyGraph}
    (h : acyclicGraph d = .ok g) : buildDependencyGraph d = .ok g := by
  obtain ⟨g', hg', hif⟩ := bind_eq_ok.mp h
  split at hif
  · cases hif
    exact hg'
  · cases hif

theorem wellFormed_of_validate (h : d.validate = .ok ()) :
    WellFormed d := by
  obtain ⟨g, hg⟩ := d.validate_ok_iff.mp h
  exact (buildDependencyGraph_ok (acyclicGraph_ok hg)).wellFormed

/-- For a valid definition and known completed tasks, exactly the unlocked
tasks come out. -/
theorem readyTasks_of_validate (h : d.validate = .ok ())
    {completed : KeyMap TaskID Unit}
    (hc : ∀ id, completed.contains id = true → id ∈ d.tasks.map TaskDefinition.id) :
    ∃ ready, d.readyTasks completed = .ok ready ∧
      ∀ task, task ∈ ready ↔ task ∈ d.tasks ∧ unlocked completed task = true := by
  obtain ⟨g, hg⟩ := d.validate_ok_iff.mp h
  have hof := buildDependencyGraph_ok (acyclicGraph_ok hg)
  have hknown : completed.keys.filter (fun id => !g.tasks.contains id) = [] := by
    apply List.filter_eq_nil_iff.mpr
    intro id hid
    have hmem := hc id ((KeyMap.mem_keys_iff _ _).mp hid)
    have := (KeyMap.mem_keys_iff _ _).mp ((keys_of_tasks hof.tasks id).mpr hmem)
    simp [KeyMap.contains, this]
  have hready : d.readyTasks completed =
      .ok ((g.taskIDs.filterMap g.tasks.get?).filter (unlocked completed)) := by
    simp only [readyTasks, hg, Except.bind, hknown]
  refine ⟨_, hready, ?_⟩
  intro task
  rw [List.mem_filter, List.mem_filterMap]
  apply and_congr_left
  intro _
  constructor
  · rintro ⟨id, -, hget⟩
    exact ((hof.tasks id task).mp hget).1
  · intro ht
    refine ⟨task.id, ?_, (hof.tasks task.id task).mpr ⟨ht, rfl⟩⟩
    rw [hof.taskIDs, sortTaskIDs, List.mem_insertionSort]
    exact List.mem_map.mpr ⟨task, ht, rfl⟩

/-- Whatever comes out as ready belongs to the definition and is unlocked. -/
theorem mem_readyTasks {completed : KeyMap TaskID Unit}
    {ready : List TaskDefinition} (h : d.readyTasks completed = .ok ready) {task : TaskDefinition}
    (ht : task ∈ ready) :
    WellFormed d ∧ task ∈ d.tasks ∧ unlocked completed task = true := by
  obtain ⟨g, hg, hmatch⟩ := bind_eq_ok.mp h
  have hof := buildDependencyGraph_ok (acyclicGraph_ok hg)
  split at hmatch
  · cases hmatch
  · cases hmatch
    obtain ⟨hmem, hun⟩ := List.mem_filter.mp ht
    obtain ⟨id, -, hget⟩ := List.mem_filterMap.mp hmem
    exact ⟨hof.wellFormed, ((hof.tasks id task).mp hget).1, hun⟩

end WorkflowDefinition

/-! Copying a definition changes nothing the checks look at. -/

def DependencyGraph.clone (graph : DependencyGraph) : DependencyGraph :=
  { graph with tasks := graph.tasks.map fun _ task => cloneTaskDefinition task }

theorem addTasks_clone (d : WorkflowDefinition) :
    ∀ (l : List TaskDefinition) (g : DependencyGraph),
      addTasks (cloneDefinition d) (l.map cloneTaskDefinition) g.clone =
        (addTasks d l g).map DependencyGraph.clone
  | [], g => rfl
  | t :: l, g => by
    have hcheck : checkTask (cloneDefinition d) g.clone (cloneTaskDefinition t) =
        checkTask d g t := by
      have hc : g.clone.tasks.contains t.id = g.tasks.contains t.id := KeyMap.contains_map _ _ _
      simp only [checkTask, cloneTaskDefinition, cloneDefinition_id, hc]
      rfl
    have hadd : g.clone.addTask (cloneTaskDefinition t) = (g.addTask t).clone := by
      simp only [DependencyGraph.addTask, DependencyGraph.clone, KeyMap.map_insert]
      rfl
    rw [List.map_cons, addTasks, addTasks, hcheck, hadd]
    cases checkTask d g t with
    | error e => rfl
    | ok _ => exact addTasks_clone d l (g.addTask t)

theorem addDependencies_clone (d : WorkflowDefinition) (t : TaskDefinition) :
    ∀ (l : List TaskID) (seen : KeyMap TaskID Unit) (g : DependencyGraph),
      addDependencies (cloneDefinition d) (cloneTaskDefinition t) l seen g.clone =
        (addDependencies d t l seen g).map DependencyGraph.clone
  | [], _, _ => rfl
  | id :: l, seen, g => by
    have hcheck : checkDependency (cloneDefinition d) g.clone (cloneTaskDefinition t) seen id =
        checkDependency d g t seen id := by
      have hc : g.clone.tasks.contains id = g.tasks.contains id := KeyMap.contains_map _ _ _
      simp only [checkDependency, cloneTaskDefinition, cloneDefinition_id, hc]
      rfl
    rw [addDependencies, addDependencies, hcheck]
    cases checkDependency d g t seen id with
    | error e => rfl
    | ok _ => exact addDependencies_clone d t l _ (g.addEdge t.id id)

theorem addEdges_clone (d : WorkflowDefinition) :
    ∀ (ids : List TaskID) (g : DependencyGraph),
      addEdges (cloneDefinition d) ids g.clone = (addEdges d ids g).map DependencyGraph.clone
  | [], _ => rfl
  | id :: ids, g => by
    have hget : g.clone.tasks.get? id = (g.tasks.get? id).map cloneTaskDefinition :=
      KeyMap.get?_map _ _ _
    rw [addEdges, addEdges, hget]
    cases g.tasks.get? id with
    | none => exact addEdges_clone d ids g
    | some t =>
      have hdeps : (cloneTaskDefinition t).dependencies.elems = t.dependencies.elems := by
        simp [cloneTaskDefinition]
      simp only [Option.map_some, hdeps, addDependencies_clone]
      cases addDependencies d t t.dependencies.elems ∅ g with
      | error e => rfl
      | ok g' => exact addEdges_clone d ids g'

theorem buildDependencyGraph_clone (d : WorkflowDefinition) :
    buildDependencyGraph (cloneDefinition d) =
      (buildDependencyGraph d).map DependencyGraph.clone := by
  have htasks : addTasks (cloneDefinition d) (cloneDefinition d).tasks ⟨∅, [], ∅, ∅⟩ =
      (addTasks d d.tasks ⟨∅, [], ∅, ∅⟩).map DependencyGraph.clone :=
    addTasks_clone d d.tasks ⟨∅, [], ∅, ∅⟩
  have hnil : decide ((cloneDefinition d).tasks = []) = decide (d.tasks = []) := by
    simp [cloneDefinition]
  unfold buildDependencyGraph
  rw [cloneDefinition_id, hnil]
  cases firstError [
      (!validIdentifier d.id, ({ code := .invalidWorkflowID, workflowID := d.id } : ValidationError)),
      (decide (d.tasks = []), { code := .emptyWorkflow, workflowID := d.id })] with
  | error e => rfl
  | ok _ =>
    simp only [Except.bind, htasks]
    cases addTasks d d.tasks ⟨∅, [], ∅, ∅⟩ with
    | error e => rfl
    | ok g =>
      have hedges : addEdges (cloneDefinition d) (sortTaskIDs g.clone.taskIDs)
          { g.clone with taskIDs := sortTaskIDs g.clone.taskIDs } =
          (addEdges d (sortTaskIDs g.taskIDs)
            { g with taskIDs := sortTaskIDs g.taskIDs }).map DependencyGraph.clone :=
        addEdges_clone d (sortTaskIDs g.taskIDs) { g with taskIDs := sortTaskIDs g.taskIDs }
      simp only [Except.map, hedges]
      cases addEdges d (sortTaskIDs g.taskIDs) { g with taskIDs := sortTaskIDs g.taskIDs } with
      | error e => rfl
      | ok g' => rfl

theorem topologicalLoop_clone (g : DependencyGraph) :
    ∀ (rounds : Nat) (remaining : KeyMap TaskID Int) (ready order : List TaskID),
      topologicalLoop g.clone rounds remaining ready order =
        topologicalLoop g rounds remaining ready order
  | 0, _, _, _ => by simp [topologicalLoop]
  | _ + 1, _, [], _ => by simp [topologicalLoop]
  | rounds + 1, remaining, _ :: _, _ => topologicalLoop_clone g rounds _ _ _

theorem acyclicGraph_clone (d : WorkflowDefinition) :
    acyclicGraph (cloneDefinition d) = (acyclicGraph d).map DependencyGraph.clone := by
  unfold acyclicGraph
  rw [buildDependencyGraph_clone]
  cases buildDependencyGraph d with
  | error e => rfl
  | ok g =>
    have ho : g.clone.topologicalOrder = g.topologicalOrder := by
      simp only [DependencyGraph.topologicalOrder, topologicalLoop_clone]
      rfl
    simp only [Except.map, Except.bind, ho, cloneDefinition_id]
    split <;> rfl

/-- A definition and its copy are valid together. -/
theorem validate_clone (d : WorkflowDefinition) :
    (cloneDefinition d).validate = .ok () ↔ d.validate = .ok () := by
  rw [WorkflowDefinition.validate_ok_iff, WorkflowDefinition.validate_ok_iff, acyclicGraph_clone]
  cases acyclicGraph d with
  | error e => simp [Except.map]
  | ok g => simp [Except.map]

end ForgeFlow.Workflow
