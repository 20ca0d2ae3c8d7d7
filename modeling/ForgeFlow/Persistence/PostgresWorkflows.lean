import ForgeFlow.Persistence.Postgres

/-!
# Workflow definitions in PostgreSQL

The rows that `savePostgresWorkflowTx` inserts and the definition that
`loadPostgresWorkflowTx` builds from them. Tasks are read in the order of their
positions, dependencies in the order of task and position, each appended to the
slice of its task.
-/

namespace ForgeFlow.Persistence

open ForgeFlow.Base ForgeFlow.Workflow ForgeFlow.Execution ForgeFlow.Security

/-- A row of `task_definitions`. -/
structure TaskDefinitionRow where
  taskID : TaskID
  position : Nat
  taskName : GoString
  handlerName : HandlerName
  taskInput : GoString
  maxAttempts : Int
  initialBackoff : Int
  maxBackoff : Int
  deriving DecidableEq

/-- A row of `task_dependencies`. -/
structure DependencyRow where
  taskID : TaskID
  dependencyTaskID : TaskID
  position : Nat
  deriving DecidableEq

/-- The rows of one workflow. -/
structure WorkflowRows where
  tasks : List TaskDefinitionRow
  dependencies : List DependencyRow
  deriving DecidableEq

/-- A row of `workflow_ownership`. Times are kept to the microsecond. -/
structure OwnershipRow where
  projectID : ProjectID
  ownerUserID : UserID
  createdAt : Int
  kept : microseconds createdAt = createdAt
  deriving DecidableEq

def ownershipRow (ownership : WorkflowOwnership) : OwnershipRow where
  projectID := ownership.projectID
  ownerUserID := ownership.ownerUserID
  createdAt := microseconds ownership.createdAt
  kept := microseconds_idem ownership.createdAt

/-- The tables of the definitions by workflow, and the primary key of
`project_memberships`, which ownership refers to. -/
structure WorkflowTables where
  workflows : KeyMap WorkflowID WorkflowRows := ∅
  ownership : KeyMap WorkflowID OwnershipRow := ∅
  memberships : List (ProjectID × UserID) := []
  deriving DecidableEq

/-! ## Writing and reading the rows -/

def taskDefinitionRow (task : TaskDefinition) (position : Nat) : TaskDefinitionRow where
  taskID := task.id
  position := position
  taskName := task.name
  handlerName := task.handler
  taskInput := task.input
  maxAttempts := task.retry.maxAttempts
  initialBackoff := task.retry.initialBackoff
  maxBackoff := task.retry.maxBackoff

def dependencyRows (task : TaskDefinition) : List DependencyRow :=
  task.dependencies.elems.zipIdx.map fun (dependency, position) => ⟨task.id, dependency, position⟩

/-- The rows of a definition. The constraints of the tables restate what `Validate` has
checked, the types of the columns do not. -/
def workflowRows (definition : WorkflowDefinition) : WorkflowRows where
  tasks := definition.tasks.zipIdx.map fun (task, position) => taskDefinitionRow task position
  dependencies := definition.tasks.flatMap dependencyRows

/-- The parameters of the insertion of a task. Those of its dependencies are IDs of tasks. -/
def checkTaskDefinition (workflowID : WorkflowID) (task : TaskDefinition) :
    Except StoreError Unit :=
  (checkParameters [task.id, task.name, task.handler, task.input]
    [task.retry.maxAttempts]).mapError
    (.wrapped (childLabel "insert task definition " task.id " for workflow " workflowID))

/-- A task as it is scanned: its dependencies are still the nil slice. -/
def scanTaskDefinition (row : TaskDefinitionRow) : TaskDefinition where
  id := row.taskID
  name := row.taskName
  dependencies := .nil
  handler := row.handlerName
  input := row.taskInput
  retry := ⟨row.maxAttempts, row.initialBackoff, row.maxBackoff⟩

/-- `append` of the scanned dependency to the slice of its task. The ID is part of the primary
key, so there is one such task. -/
def appendDependency (workflowID : WorkflowID) (tasks : List TaskDefinition)
    (row : DependencyRow) : Except StoreError (List TaskDefinition) :=
  if row.taskID ∈ tasks.map TaskDefinition.id then
    .ok (tasks.map fun task =>
      if task.id = row.taskID then
        { task with dependencies := .of (task.dependencies.elems ++ [row.dependencyTaskID]) }
      else task)
  else .error (.message (runLabel "load workflow definition " workflowID ++
    ascii "dependency references missing task " ++ quote row.taskID))

/-- `ORDER BY task_id, position` -/
def DependencyRow.before (a b : DependencyRow) : Bool :=
  a.taskID < b.taskID || (a.taskID = b.taskID && a.position ≤ b.position)

namespace WorkflowTables

def loadWorkflow (tables : WorkflowTables) (workflowID : WorkflowID) :
    Except StoreError (Option WorkflowDefinition) :=
  ((checkParameters [workflowID] []).mapError
    (.wrapped (runLabel "load workflow definition " workflowID))).bind fun _ =>
  match tables.workflows.get? workflowID with
  | none => .ok none
  | some rows => do
    let scanned := (rows.tasks.mergeSort fun a b => a.position ≤ b.position).map scanTaskDefinition
    let tasks ← (rows.dependencies.mergeSort DependencyRow.before).foldlM
      (appendDependency workflowID) scanned
    let definition : WorkflowDefinition := ⟨workflowID, tasks⟩
    definition.validate.mapError fun e =>
      .wrapped (runLabel "validate loaded workflow definition " workflowID) (.invalidDefinition e)
    return some definition

/-- `savePostgresWorkflowTx` -/
def saveDefinition (tables : WorkflowTables) (definition : WorkflowDefinition) :
    Except StoreError WorkflowTables := do
  (checkParameters [definition.id] []).mapError
    (.wrapped (runLabel "insert workflow definition " definition.id))
  if tables.workflows.contains definition.id then
    let existing ← tables.loadWorkflow definition.id
    firstError [(existing ≠ some definition, .workflowConflict definition.id)]
    return tables
  else
    checkAll (checkTaskDefinition definition.id) definition.tasks
    return { tables with
      workflows := tables.workflows.insert definition.id (workflowRows definition) }

def saveWorkflow (tables : WorkflowTables) (ctx : ContextState)
    (definition : WorkflowDefinition) : Except StoreError WorkflowTables := do
  contextError ctx
  checkDefinition "save workflow definition: " definition
  tables.saveDefinition definition

/-- The statement on `workflow_ownership` and the comparison behind it. An ownership comes with
the form of its creation time: what a comparison of two `time.Time` values sees beside the
instant, their locations and monotonic readings. The database returns the instant to the
microsecond, in a form of its own. -/
def saveOwnership {F : Type} [DecidableEq F] (returned : Int → F) (tables : WorkflowTables)
    (definition : WorkflowDefinition) (ownership : WorkflowOwnership) (form : F) :
    Except StoreError WorkflowTables :=
  match tables.ownership.get? definition.id with
  | none => do
    (firstError [((ownership.projectID, ownership.ownerUserID) ∉ tables.memberships,
      violation "workflow_ownership_member_fk")]).mapError
        (.wrapped (runLabel "insert ownership for workflow " definition.id))
    return { tables with
      ownership := tables.ownership.insert definition.id (ownershipRow ownership) }
  | some row => do
    let existing : WorkflowOwnership :=
      ⟨definition.id, row.projectID, row.ownerUserID, row.createdAt⟩
    firstError [(existing ≠ ownership || returned row.createdAt ≠ form,
      .workflowOwnershipConflict definition.id)]
    return tables

def saveWorkflowForProject {F : Type} [DecidableEq F] (returned : Int → F)
    (tables : WorkflowTables) (ctx : ContextState) (definition : WorkflowDefinition)
    (ownership : WorkflowOwnership) (form : F) : Except StoreError WorkflowTables := do
  contextError ctx
  checkDefinition "save owned workflow: " definition
  checkRecord "save workflow ownership: " ownership.validate
  firstError [(ownership.workflowID ≠ definition.id,
    refuse "save workflow ownership: definition identity does not match")]
  let tables ← tables.saveDefinition definition
  tables.saveOwnership returned definition ownership form

end WorkflowTables

/-! ## What is read is what was written -/

section RoundTrip

variable {definition : WorkflowDefinition} {task : TaskDefinition} {tasks : List TaskDefinition}

theorem zipIdx_pairwise {α : Type} (l : List α) : l.zipIdx.Pairwise fun a b => a.2 ≤ b.2 := by
  have hrange : (l.zipIdx.map Prod.snd).Pairwise (· ≤ ·) := by
    rw [List.zipIdx_map_snd]
    exact List.pairwise_le_range'
  exact List.pairwise_map.mp hrange

theorem dependencyRows_taskID {row : DependencyRow} (h : row ∈ dependencyRows task) :
    row.taskID = task.id := by
  obtain ⟨⟨dependency, position⟩, -, rfl⟩ := List.mem_map.mp h
  rfl

theorem dependencyRows_dependencies (task : TaskDefinition) :
    (dependencyRows task).map DependencyRow.dependencyTaskID = task.dependencies.elems := by
  simp [dependencyRows, Function.comp_def]

theorem dependencyRows_before (task : TaskDefinition) :
    (dependencyRows task).Pairwise fun a b => a.before b = true := by
  refine List.pairwise_map.mpr ((zipIdx_pairwise task.dependencies.elems).imp ?_)
  intro a b hle
  simp [DependencyRow.before, hle]

/-- The rows of one task, out of the rows of all. -/
theorem filter_dependencyRows (hnodup : (tasks.map TaskDefinition.id).Nodup)
    (htask : task ∈ tasks) :
    (tasks.flatMap dependencyRows).filter (fun row => row.taskID = task.id) =
      dependencyRows task := by
  have hown : ∀ other : TaskDefinition, (dependencyRows other).filter
      (fun row => row.taskID = task.id) = if other.id = task.id then dependencyRows other else [] := by
    intro other
    split
    · rename_i heq
      refine List.filter_eq_self.mpr fun row hrow => ?_
      simp [dependencyRows_taskID hrow, heq]
    · rename_i hne
      refine List.filter_eq_nil_iff.mpr fun row hrow => ?_
      simp [dependencyRows_taskID hrow, hne]
  induction tasks with
  | nil => exact absurd htask List.not_mem_nil
  | cons head rest ih =>
    obtain ⟨hhead, hrest⟩ := List.nodup_cons.mp hnodup
    rw [List.flatMap_cons, List.filter_append, hown]
    rcases List.mem_cons.mp htask with rfl | htask
    · have hnil : (rest.flatMap dependencyRows).filter (fun row => row.taskID = task.id) = [] := by
        refine List.filter_eq_nil_iff.mpr fun row hrow => ?_
        obtain ⟨other, hother, hrow⟩ := List.mem_flatMap.mp hrow
        have hne : other.id ≠ task.id := fun heq =>
          hhead (heq ▸ List.mem_map_of_mem hother)
        simp [dependencyRows_taskID hrow, hne]
      rw [if_pos rfl, hnil, List.append_nil]
    · have hne : head.id ≠ task.id := fun heq => hhead (heq ▸ List.mem_map_of_mem htask)
      rw [if_neg hne, List.nil_append, ih hrest htask]

theorem before_trans (a b c : DependencyRow) (hab : a.before b = true) (hbc : b.before c = true) :
    a.before c = true := by
  simp only [DependencyRow.before, Bool.or_eq_true, decide_eq_true_eq, Bool.and_eq_true] at *
  rcases hab with hab | ⟨hab, hle⟩
  · rcases hbc with hbc | ⟨hbc, -⟩
    · exact .inl (lt_trans hab hbc)
    · exact .inl (hbc ▸ hab)
  · rcases hbc with hbc | ⟨hbc, hle'⟩
    · exact .inl (hab ▸ hbc)
    · exact .inr ⟨hab.trans hbc, hle.trans hle'⟩

theorem before_total (a b : DependencyRow) : (a.before b || b.before a) = true := by
  simp only [DependencyRow.before, Bool.or_eq_true, decide_eq_true_eq, Bool.and_eq_true]
  rcases lt_trichotomy a.taskID b.taskID with hlt | heq | hgt
  · exact .inl (.inl hlt)
  · rcases le_total a.position b.position with hle | hle
    · exact .inl (.inr ⟨heq, hle⟩)
    · exact .inr (.inr ⟨heq.symm, hle⟩)
  · exact .inr (.inl hgt)

/-- Sorting keeps the rows of a task in the order of their positions. -/
theorem filter_sorted_rows (hnodup : (tasks.map TaskDefinition.id).Nodup) (htask : task ∈ tasks) :
    ((tasks.flatMap dependencyRows).mergeSort DependencyRow.before).filter
      (fun row => row.taskID = task.id) = dependencyRows task := by
  have hperm := (List.mergeSort_perm (tasks.flatMap dependencyRows) DependencyRow.before).filter
    (fun row => row.taskID = task.id)
  rw [filter_dependencyRows hnodup htask] at hperm
  have hsub : (dependencyRows task).Sublist
      ((tasks.flatMap dependencyRows).mergeSort DependencyRow.before) := by
    refine List.sublist_mergeSort before_trans before_total (dependencyRows_before task) ?_
    exact List.sublist_flatten_of_mem (List.mem_map_of_mem htask)
  have hfiltered := hsub.filter (fun row => row.taskID = task.id)
  rw [List.filter_eq_self.mpr fun row hrow => by simp [dependencyRows_taskID hrow]] at hfiltered
  exact (hfiltered.eq_of_length hperm.length_eq.symm).symm

/-- The slice after some more dependencies have been appended. -/
def extended (slice : Slice TaskID) (more : List TaskID) : Slice TaskID :=
  if more = [] then slice else .of (slice.elems ++ more)

theorem extended_append (slice : Slice TaskID) (dependency : TaskID) (more : List TaskID) :
    extended (.of (slice.elems ++ [dependency])) more = extended slice (dependency :: more) := by
  unfold extended
  split
  · rename_i hnil
    simp [hnil]
  · simp [Slice.elems]

/-- The loop over the dependencies gives each task those of its own rows. -/
theorem foldlM_appendDependency (workflowID : WorkflowID) {rows : List DependencyRow}
    (hrows : ∀ row ∈ rows, row.taskID ∈ tasks.map TaskDefinition.id) :
    rows.foldlM (appendDependency workflowID) tasks =
      .ok (tasks.map fun task => { task with
        dependencies := extended task.dependencies
          ((rows.filter fun row => row.taskID = task.id).map DependencyRow.dependencyTaskID) }) := by
  induction rows generalizing tasks with
  | nil => simp [extended, pure, Except.pure]
  | cons row rest ih =>
    rw [List.foldlM_cons, appendDependency, if_pos (hrows row List.mem_cons_self)]
    have hids : ((tasks.map fun task => if task.id = row.taskID then
        { task with dependencies := .of (task.dependencies.elems ++ [row.dependencyTaskID]) }
        else task).map TaskDefinition.id) = tasks.map TaskDefinition.id := by
      rw [List.map_map]
      refine List.map_congr_left fun task _ => ?_
      simp only [Function.comp_def]
      split <;> rfl
    have hrest : ∀ other ∈ rest, other.taskID ∈ ((tasks.map fun task => if task.id = row.taskID then
        { task with dependencies := .of (task.dependencies.elems ++ [row.dependencyTaskID]) }
        else task).map TaskDefinition.id) :=
      fun other hother => hids ▸ hrows other (List.mem_cons_of_mem _ hother)
    refine (ih hrest).trans (congrArg Except.ok ?_)
    rw [List.map_map]
    refine List.map_congr_left fun task _ => ?_
    simp only [Function.comp_def]
    by_cases heq : task.id = row.taskID
    · rw [if_pos heq, List.filter_cons_of_pos (by simp [heq])]
      simp [extended_append]
    · rw [if_neg heq, List.filter_cons_of_neg (by simpa using Ne.symm heq)]

theorem scanned_tasks (definition : WorkflowDefinition) :
    ((workflowRows definition).tasks.mergeSort fun a b => a.position ≤ b.position).map
      scanTaskDefinition = definition.tasks.map fun task => { task with dependencies := .nil } := by
  have hsorted : (workflowRows definition).tasks.Pairwise
      fun a b => decide (a.position ≤ b.position) = true := by
    refine List.pairwise_map.mpr ((zipIdx_pairwise definition.tasks).imp ?_)
    intro a b hle
    exact decide_eq_true hle
  rw [List.mergeSort_of_pairwise hsorted, workflowRows, List.map_map]
  conv_rhs => rw [← List.zipIdx_map_fst 0 definition.tasks, List.map_map]
  rfl

theorem extended_nil (slice : Slice TaskID) : extended .nil slice.elems = slice.clone := by
  unfold extended Slice.clone
  cases slice.elems with
  | nil => rfl
  | cons dependency more => simp [Slice.elems]

/-- A valid definition is read back with its slices as a copy has them. -/
theorem loadWorkflow_of_rows {tables : WorkflowTables} (hvalid : definition.validate = .ok ())
    (hid : checkParameters [definition.id] [] = .ok ())
    (hrows : tables.workflows.get? definition.id = some (workflowRows definition)) :
    tables.loadWorkflow definition.id = .ok (some (cloneDefinition definition)) := by
  have hnodup := (WorkflowDefinition.wellFormed_of_validate hvalid).ids_nodup
  have hids : ((definition.tasks.map fun task => { task with dependencies := Slice.nil }).map
      TaskDefinition.id) = definition.tasks.map TaskDefinition.id := by
    simp [Function.comp_def]
  have hknown : ∀ row ∈ (workflowRows definition).dependencies.mergeSort DependencyRow.before,
      row.taskID ∈ (definition.tasks.map fun task => { task with dependencies := Slice.nil }).map
        TaskDefinition.id := by
    intro row hrow
    obtain ⟨task, htask, hrow⟩ := List.mem_flatMap.mp (List.mem_mergeSort.mp hrow)
    rw [hids, dependencyRows_taskID hrow]
    exact List.mem_map_of_mem htask
  have htasks := foldlM_appendDependency definition.id hknown
  have hclone : ((definition.tasks.map fun task => { task with dependencies := Slice.nil }).map
      fun task => { task with
        dependencies := extended task.dependencies
          ((((workflowRows definition).dependencies.mergeSort DependencyRow.before).filter
            fun row => row.taskID = task.id).map DependencyRow.dependencyTaskID) }) =
      (cloneDefinition definition).tasks := by
    rw [List.map_map]
    refine List.map_congr_left fun task htask => ?_
    have hown := filter_sorted_rows hnodup htask
    simp only [Function.comp_def, workflowRows, hown, dependencyRows_dependencies, extended_nil]
    rfl
  have hvalid' : (⟨definition.id, (cloneDefinition definition).tasks⟩ :
      WorkflowDefinition).validate = .ok () := (validate_clone definition).mpr hvalid
  simp only [WorkflowTables.loadWorkflow, hid, hrows, scanned_tasks, htasks, hclone, ok_do, hvalid',
    Except.mapError, Except.bind]
  rfl

theorem appendDependency_canonical (workflowID : WorkflowID) {rows : List DependencyRow}
    {tasks' : List TaskDefinition}
    (hfold : rows.foldlM (appendDependency workflowID) tasks = .ok tasks')
    (htasks : ∀ task ∈ tasks, cloneTaskDefinition task = task) :
    ∀ task ∈ tasks', cloneTaskDefinition task = task := by
  induction rows generalizing tasks with
  | nil =>
    cases hfold
    exact htasks
  | cons row rest ih =>
    rw [List.foldlM_cons] at hfold
    obtain ⟨appended, happend, hrest⟩ := do_eq_ok.mp hfold
    refine ih hrest ?_
    unfold appendDependency at happend
    split at happend
    · cases happend
      intro task htask
      obtain ⟨task, hmem, rfl⟩ := List.mem_map.mp htask
      split
      · cases h : task.dependencies.elems <;>
          simp [cloneTaskDefinition, Slice.clone, Slice.elems]
      · exact htasks task hmem
    · cases happend

/-- Whatever is read has its slices as a copy has them. -/
theorem loadWorkflow_canonical {tables : WorkflowTables} {workflowID : WorkflowID}
    (h : tables.loadWorkflow workflowID = .ok (some definition)) :
    cloneDefinition definition = definition := by
  unfold WorkflowTables.loadWorkflow at h
  obtain ⟨-, h⟩ := bind_unit_ok_iff.mp h
  split at h
  · cases h
  · obtain ⟨tasks, hfold, h⟩ := do_eq_ok.mp h
    obtain ⟨-, h⟩ := do_unit_eq_ok.mp h
    cases h
    have hcanonical := appendDependency_canonical workflowID hfold fun task htask => by
      obtain ⟨row, -, rfl⟩ := List.mem_map.mp htask
      rfl
    simp only [cloneDefinition]
    rw [List.map_congr_left hcanonical, List.map_id']

end RoundTrip

/-! ## Saving a definition twice -/

section Again

variable {tables tables' : WorkflowTables} {definition again : WorkflowDefinition}

/-- The definition is stored, and is read as its copy. -/
structure Stored (tables : WorkflowTables) (definition : WorkflowDefinition) : Prop where
  id : checkParameters [definition.id] [] = .ok ()
  rows : tables.workflows.contains definition.id = true
  loads : tables.loadWorkflow definition.id = .ok (some (cloneDefinition definition))

theorem saveDefinition_stored (hvalid : definition.validate = .ok ())
    (h : tables.saveDefinition definition = .ok tables') : Stored tables' definition := by
  obtain ⟨hid, h⟩ := do_unit_eq_ok.mp h
  rw [mapError_ok_iff] at hid
  split at h
  · rename_i hrows
    obtain ⟨existing, hload, h⟩ := do_eq_ok.mp h
    obtain ⟨hsame, h⟩ := do_unit_eq_ok.mp h
    cases h
    have heq : existing = some definition := by simpa using hsame
    subst heq
    refine ⟨hid, hrows, ?_⟩
    rw [loadWorkflow_canonical hload]
    exact hload
  · obtain ⟨-, h⟩ := do_unit_eq_ok.mp h
    cases h
    have hrows : (tables.workflows.insert definition.id (workflowRows definition)).get?
        definition.id = some (workflowRows definition) := KeyMap.get?_insert_self _ _ _
    exact ⟨hid, KeyMap.contains_of_get? hrows, loadWorkflow_of_rows hvalid hid hrows⟩

/-- Saved again, a stored definition is accepted exactly with the slices of a copy. -/
theorem Stored.again_iff (h : Stored tables definition)
    (hsame : cloneDefinition again = cloneDefinition definition) :
    tables.saveDefinition again = .ok tables' ↔ tables' = tables ∧ cloneDefinition again = again := by
  have hid : again.id = definition.id := by simpa using congrArg WorkflowDefinition.id hsame
  simp only [WorkflowTables.saveDefinition, hid, h.id, Except.mapError, h.rows, if_true, h.loads,
    ok_do, ← hsame]
  rw [do_unit_eq_ok]
  simp only [firstError_cons, firstError_nil, and_true, decide_eq_false_iff_not, ne_eq, not_not,
    Option.some.injEq, pure, Except.pure, Except.ok.injEq]
  constructor
  · rintro ⟨hclone, rfl⟩
    exact ⟨rfl, hclone⟩
  · rintro ⟨rfl, hclone⟩
    exact ⟨hclone, rfl⟩

theorem saveWorkflow_again_iff (h : tables.saveWorkflow .live definition = .ok tables')
    (hsame : cloneDefinition again = cloneDefinition definition) :
    tables'.saveWorkflow .live again = .ok tables' ↔ cloneDefinition again = again := by
  obtain ⟨-, h⟩ := do_unit_eq_ok.mp h
  obtain ⟨hvalid, h⟩ := do_unit_eq_ok.mp h
  rw [checkDefinition, mapError_ok_iff] at hvalid
  have hagain : again.validate = .ok () :=
    (validate_clone again).mp (hsame ▸ (validate_clone definition).mpr hvalid)
  rw [WorkflowTables.saveWorkflow, do_unit_eq_ok, do_unit_eq_ok, checkDefinition, mapError_ok_iff,
    (saveDefinition_stored hvalid h).again_iff hsame]
  simp [contextError, hagain]

variable {F : Type} [DecidableEq F] {returned : Int → F} {ownership : WorkflowOwnership}
  {form form' : F}

theorem saveOwnership_stored (hid : ownership.workflowID = definition.id)
    (h : tables.saveOwnership returned definition ownership form = .ok tables') :
    tables'.workflows = tables.workflows ∧
      tables'.ownership.get? definition.id = some (ownershipRow ownership) := by
  unfold WorkflowTables.saveOwnership at h
  split at h
  · obtain ⟨-, h⟩ := do_unit_eq_ok.mp h
    cases h
    exact ⟨rfl, KeyMap.get?_insert_self _ _ _⟩
  · rename_i row hrow
    obtain ⟨hsame, h⟩ := do_unit_eq_ok.mp h
    cases h
    simp only [firstError_cons, Bool.or_eq_false_iff, decide_eq_false_iff_not, ne_eq,
      not_not] at hsame
    obtain ⟨⟨rfl, -⟩, -⟩ := hsame
    refine ⟨rfl, ?_⟩
    rw [hrow]
    cases row with
    | mk projectID ownerUserID createdAt kept => simp [ownershipRow, kept]

theorem saveOwnership_again_iff (hid : ownership.workflowID = definition.id)
    (hrow : tables.ownership.get? definition.id = some (ownershipRow ownership)) :
    tables.saveOwnership returned definition ownership form = .ok tables ↔
      microseconds ownership.createdAt = ownership.createdAt ∧
        returned ownership.createdAt = form := by
  have hsame : (⟨definition.id, (ownershipRow ownership).projectID,
      (ownershipRow ownership).ownerUserID, (ownershipRow ownership).createdAt⟩ :
        WorkflowOwnership) = ownership ↔ microseconds ownership.createdAt = ownership.createdAt := by
    rw [← hid]
    cases ownership
    simp [ownershipRow]
  simp only [WorkflowTables.saveOwnership, hrow]
  rw [do_unit_eq_ok]
  simp only [firstError_cons, firstError_nil, and_true, Bool.or_eq_false_iff,
    decide_eq_false_iff_not, ne_eq, not_not, hsame, pure, Except.pure]
  refine and_congr_right fun hkept => ?_
  have hcreated : (ownershipRow ownership).createdAt = ownership.createdAt := hkept
  rw [hcreated]

/-- What an accepted call has stored. -/
theorem saveWorkflowForProject_stored
    (h : tables.saveWorkflowForProject returned .live definition ownership form = .ok tables') :
    Stored tables' definition ∧ definition.validate = .ok () ∧ ownership.validate = .ok () ∧
      ownership.workflowID = definition.id ∧
      tables'.ownership.get? definition.id = some (ownershipRow ownership) := by
  obtain ⟨-, h⟩ := do_unit_eq_ok.mp h
  obtain ⟨hvalid, h⟩ := do_unit_eq_ok.mp h
  obtain ⟨howner, h⟩ := do_unit_eq_ok.mp h
  obtain ⟨hid, h⟩ := do_unit_eq_ok.mp h
  obtain ⟨saved, hsaved, h⟩ := do_eq_ok.mp h
  rw [checkDefinition, mapError_ok_iff] at hvalid
  rw [checkRecord, mapError_ok_iff] at howner
  have hid : ownership.workflowID = definition.id := by simpa using hid
  have hstored := saveDefinition_stored hvalid hsaved
  obtain ⟨hworkflows, hrow⟩ := saveOwnership_stored hid h
  refine ⟨⟨hstored.id, hworkflows ▸ hstored.rows, ?_⟩, hvalid, howner, hid, hrow⟩
  rw [← hstored.loads]
  simp only [WorkflowTables.loadWorkflow, hworkflows]

/-- Saved again, an owned workflow is accepted exactly with the slices of a copy, a time of
whole microseconds and the form the database returns. -/
theorem saveWorkflowForProject_again_iff
    (h : tables.saveWorkflowForProject returned .live definition ownership form = .ok tables')
    (hsame : cloneDefinition again = cloneDefinition definition) :
    tables'.saveWorkflowForProject returned .live again ownership form' = .ok tables' ↔
      cloneDefinition again = again ∧ microseconds ownership.createdAt = ownership.createdAt ∧
        returned ownership.createdAt = form' := by
  obtain ⟨hstored, hvalid, howner, hid, hrow⟩ := saveWorkflowForProject_stored h
  have hid' : again.id = definition.id := by simpa using congrArg WorkflowDefinition.id hsame
  have hagain : again.validate = .ok () :=
    (validate_clone again).mp (hsame ▸ (validate_clone definition).mpr hvalid)
  rw [← hid'] at hid hrow
  rw [WorkflowTables.saveWorkflowForProject, do_unit_eq_ok, do_unit_eq_ok, do_unit_eq_ok,
    do_unit_eq_ok, do_eq_ok, checkDefinition, mapError_ok_iff, checkRecord, mapError_ok_iff]
  simp only [contextError, hagain, howner, hid, firstError_cons, firstError_nil, ne_eq,
    not_true_eq_false, decide_false, and_true, true_and, hstored.again_iff hsame]
  rw [← saveOwnership_again_iff hid hrow]
  constructor
  · rintro ⟨saved, ⟨rfl, hclone⟩, hsaved⟩
    exact ⟨hclone, hsaved⟩
  · rintro ⟨hclone, hsaved⟩
    exact ⟨tables', ⟨rfl, hclone⟩, hsaved⟩

end Again

/-! ## The definitions that runs are restored against -/

/-- The definitions beside the runs are those of the rows. -/
structure Reflects (db : Database) (tables : WorkflowTables) : Prop where
  none : ∀ id, tables.workflows.get? id = none → db.definitions.get? id = none
  some : ∀ id rows, tables.workflows.get? id = some rows → ∃ d : WorkflowDefinition, d.id = id ∧
    d.validate = .ok () ∧ rows = workflowRows d ∧
      db.definitions.get? id = some (cloneDefinition d)

section Reflects

variable {db : Database} {tables tables' : WorkflowTables} {definition : WorkflowDefinition}

/-- `loadPostgresWorkflowTx` gives `CreateRun` and `SaveRun` what it gives `LoadWorkflow`. -/
theorem Reflects.loadWorkflow (h : Reflects db tables) (id : WorkflowID) :
    db.loadWorkflow id = tables.loadWorkflow id := by
  cases htext : checkParameters [id] [] with
  | error e => simp only [Database.loadWorkflow, WorkflowTables.loadWorkflow, htext]; rfl
  | ok =>
    cases hrows : tables.workflows.get? id with
    | none =>
      simp only [Database.loadWorkflow, WorkflowTables.loadWorkflow, htext, hrows, h.none id hrows]
    | some rows =>
      obtain ⟨d, rfl, hvalid, rfl, hget⟩ := h.some id rows hrows
      rw [loadWorkflow_of_rows hvalid htext hrows]
      simp only [Database.loadWorkflow, htext, hget, (validate_clone d).mpr hvalid]
      rfl

/-- An accepted save writes the rows of the definition or finds them. -/
theorem Reflects.saveDefinition (h : Reflects db tables) (hvalid : definition.validate = .ok ())
    (hsave : tables.saveDefinition definition = .ok tables') :
    Reflects { db with
      definitions := if tables.workflows.contains definition.id then db.definitions
        else db.definitions.insert definition.id (cloneDefinition definition) } tables' := by
  obtain ⟨-, hsave⟩ := do_unit_eq_ok.mp hsave
  split at hsave
  · rename_i hrows
    obtain ⟨existing, -, hsave⟩ := do_eq_ok.mp hsave
    obtain ⟨-, hsave⟩ := do_unit_eq_ok.mp hsave
    cases hsave
    rw [if_pos hrows]
    exact h
  · rename_i hrows
    obtain ⟨-, hsave⟩ := do_unit_eq_ok.mp hsave
    cases hsave
    rw [if_neg hrows]
    refine ⟨fun id hnone => ?_, fun id rows hget => ?_⟩
    · have hne : id ≠ definition.id := by
        rintro rfl
        cases (KeyMap.get?_insert_self _ _ _).symm.trans hnone
      rw [KeyMap.get?_insert_ne _ _ hne] at hnone ⊢
      exact h.none id hnone
    · rcases KeyMap.get?_insert_cases hget with ⟨rfl, rfl⟩ | ⟨hne, hget⟩
      · exact ⟨definition, rfl, hvalid, rfl, KeyMap.get?_insert_self _ _ _⟩
      · rw [KeyMap.get?_insert_ne _ _ hne]
        exact h.some id rows hget

/-- The two calls that write definitions. -/
theorem Reflects.saved (h : Reflects db tables)
    (hsave : tables.saveWorkflow .live definition = .ok tables' ∨
      ∃ (F : Type) (_ : DecidableEq F) (returned : Int → F) (o : WorkflowOwnership) (form : F),
        tables.saveWorkflowForProject returned .live definition o form = .ok tables') :
    ∃ definitions, Reflects { db with definitions } tables' := by
  rcases hsave with hsave | ⟨F, hF, returned, o, form, hsave⟩
  · obtain ⟨-, hsave⟩ := do_unit_eq_ok.mp hsave
    obtain ⟨hvalid, hsave⟩ := do_unit_eq_ok.mp hsave
    exact ⟨_, h.saveDefinition (mapError_ok_iff.mp hvalid) hsave⟩
  · obtain ⟨-, hvalid, -, hid, -⟩ := saveWorkflowForProject_stored hsave
    obtain ⟨-, hsave⟩ := do_unit_eq_ok.mp hsave
    obtain ⟨-, hsave⟩ := do_unit_eq_ok.mp hsave
    obtain ⟨-, hsave⟩ := do_unit_eq_ok.mp hsave
    obtain ⟨-, hsave⟩ := do_unit_eq_ok.mp hsave
    obtain ⟨saved, hsaved, hsave⟩ := do_eq_ok.mp hsave
    have hreflects := h.saveDefinition hvalid hsaved
    obtain ⟨hworkflows, -⟩ := saveOwnership_stored hid hsave
    exact ⟨_, fun id => hworkflows ▸ hreflects.none id, fun id => hworkflows ▸ hreflects.some id⟩

end Reflects

end ForgeFlow.Persistence
