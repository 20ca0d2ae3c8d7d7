import ForgeFlow.Execution.Attempts
import ForgeFlow.Execution.Scheduler

/-!
# What a scheduler relies on and answers for

The ledger of a scheduler keeps what it knows to be stored and what it has done:
messages published, jobs handed out, results still to come. The contract says what
each call needs of the ledger and how it is noted there.
-/

namespace ForgeFlow.Execution

open ForgeFlow.Base ForgeFlow.Workflow

/-- The task runs of a snapshot as a run restored from it holds them. -/
def WorkflowRunSnapshot.taskMap (s : WorkflowRunSnapshot) : KeyMap TaskID TaskRun :=
  KeyMap.ofList (s.tasks.map fun task => (task.taskID, task.restored s.id))

/-- What a snapshot's tasks are restored to. -/
theorem taskMap_mem {s : WorkflowRunSnapshot} {k : TaskID} {t : TaskRun}
    (h : s.taskMap.get? k = some t) : ∃ u ∈ s.tasks, u.taskID = k ∧ t = u.restored s.id := by
  obtain ⟨u, hu, heq⟩ := List.mem_map.mp (KeyMap.mem_of_get?_ofList h)
  cases heq
  exact ⟨u, hu, rfl, rfl⟩

/-- The snapshot holds the run as it is. -/
structure Stored (s : WorkflowRunSnapshot) (run : WorkflowRun) : Prop where
  coherent : Coherent run
  id : s.id = run.id
  version : s.version = run.version
  status : s.status = run.status
  workflow : s.workflowID = run.definition.id
  tasks : s.taskMap = run.tasks

theorem Coherent.setPersistedVersion {run : WorkflowRun} (h : Coherent run) (version : Nat) :
    Coherent (run.setPersistedVersion version) := ⟨h.tasks, h.workers, h.definition⟩

theorem Stored.of_saved {run : WorkflowRun} (h : Coherent run) (version : Nat) :
    Stored { run.snapshot with version := version } (run.setPersistedVersion version) :=
  ⟨h.setPersistedVersion version, rfl, rfl, rfl, rfl, h.restored_tasks⟩

theorem Stored.of_restore {s : WorkflowRunSnapshot} {d : WorkflowDefinition} {run : WorkflowRun}
    (h : restoreWorkflowRun s d = .ok run) : Stored s run := by
  have hc := restoreWorkflowRun_coherent h
  obtain ⟨-, -, hid, -, -, rfl⟩ := restoreWorkflowRun_ok h
  exact ⟨hc, rfl, rfl, rfl, hid, rfl⟩

/-- The run came from the other by operations that do not touch its version. -/
def Advances (base run : WorkflowRun) : Prop :=
  ∃ ops, run = base.applyAll ops ∧ run.version = base.version

section

variable {base run run' : WorkflowRun}

theorem Advances.refl (run : WorkflowRun) : Advances run run := ⟨[], rfl, rfl⟩

theorem Advances.apply (h : Advances base run) (op : Operation)
    (hv : (run.apply op).version = run.version) : Advances base (run.apply op) := by
  obtain ⟨ops, rfl, hversion⟩ := h
  exact ⟨ops ++ [op], by simp [WorkflowRun.applyAll], hv.trans hversion⟩

theorem Advances.coherent (h : Advances base run) (hc : Coherent base) : Coherent run := by
  obtain ⟨ops, rfl, -⟩ := h
  exact hc.applyAll ops

theorem Advances.id (h : Advances base run) (hc : Coherent base) : run.id = base.id := by
  obtain ⟨ops, rfl, -⟩ := h
  exact (applyAll_definition hc ops).2

theorem Advances.definition (h : Advances base run) (hc : Coherent base) :
    run.definition = base.definition := by
  obtain ⟨ops, rfl, -⟩ := h
  exact (applyAll_definition hc ops).1

/-- What every operation keeps of a task. -/
theorem Advances.keeps (h : Advances base run) (hc : Coherent base) {k : TaskID}
    {P : TaskRun → Prop} (hstep : ∀ since policy p u u', Identified base.id k u →
      TaskMove base.id since policy k p u u' → P u → P u')
    {t : TaskRun} (ht : base.tasks.get? k = some t) (hP : P t) :
    ∃ t', run.tasks.get? k = some t' ∧ P t' := by
  obtain ⟨ops, rfl, -⟩ := h
  induction ops generalizing base t with
  | nil => exact ⟨t, ht, hP⟩
  | cons op ops ih =>
    have he := apply_evolves hc op
    obtain ⟨u, hu, hPu⟩ := he.keeps hc (fun u u' hi hm => hstep _ _ _ u u' hi hm) ht hP
    refine ih (hc.apply op) (fun since policy p u u' hi hm => ?_) hu hPu
    rw [he.id] at hi hm
    exact hstep since policy p u u' hi hm

end

/-- The run is named validly, and its tasks are those of its definition. -/
structure Grounded (run : WorkflowRun) : Prop where
  id : validIdentifier run.id = true
  task : ∀ k t, run.tasks.get? k = some t → validIdentifier k = true
  defined : ∀ k t, run.tasks.get? k = some t →
    (requireDefinition (taskDefinitionsByID run.definition) k).id = k

theorem Grounded.evolves {permits : TaskID → Permits} {run run' : WorkflowRun}
    (h : Grounded run) (he : Evolves permits run run') : Grounded run' where
  id := he.id ▸ h.id
  task k t' ht' := by
    obtain ⟨t, ht, -⟩ := he.origin ht'
    exact h.task k t ht
  defined k t' ht' := by
    obtain ⟨t, ht, -⟩ := he.origin ht'
    rw [he.definition]
    exact h.defined k t ht

/-! ## The ledger -/

/-- A worker ID that calls for this run under this configuration give out. -/
def Spawnable (config : EngineConfig) (runID : RunID) (w : WorkerID) : Prop :=
  ∃ slot generation, w = workerIDFor config runID slot generation

/-- A stored run that can be taken over: created after the zero time, with no
lease of a worker whose ID is going to be given out again. -/
structure Usable (config : EngineConfig) (runID : RunID) (s : WorkflowRunSnapshot) : Prop where
  created : 0 < s.createdAt
  leases : ∀ t ∈ s.tasks, ∀ w, t.leasedTo = some w → ¬Spawnable config runID w

/-- A slot of an engine with this configuration. -/
def EngineConfig.HasSlot (config : EngineConfig) (slot : Nat) : Prop :=
  1 ≤ slot ∧ slot ≤ config.workerCount

/-- How far a call is with stopping its workers. -/
inductive Staffing where
  | hired
  | stopping
  | gone

structure Ledger where
  /-- The snapshot known to be stored, and the one it replaced. -/
  stored : Option WorkflowRunSnapshot := none
  previous : Option WorkflowRunSnapshot := none
  /-- The definition of the run, as runs hold it. -/
  definition : Option WorkflowDefinition := none
  /-- Nothing was handed out since the last save. -/
  fresh : Prop := False
  published : List TaskMessage := []
  jobs : List (WorkerClaim × TaskJob) := []
  /-- The claim taken last, until it is answered. -/
  claim : Option WorkerClaim := none
  taken : List WorkerClaim := []
  /-- Jobs whose result has not been taken. -/
  outstanding : List (WorkerID × AttemptID) := []
  spawned : List WorkerID := []
  /-- The worker spawned last for each slot. -/
  roster : Nat → Option WorkerID := fun _ => none
  staff : Staffing := .hired
  /-- Workers claimed only when all their results had been taken, from a usable run. -/
  tidy : Prop := True
  /-- No call failed and every delivery was of this run. -/
  clean : Prop := True

/-- The task stands in the snapshot. -/
def Ledger.Holds (g : Ledger) (k : TaskID) (P : TaskRun → Prop) : Prop :=
  ∃ s t, g.stored = some s ∧ s.taskMap.get? k = some t ∧ P t

/-- The job is for the attempt whose lease was stored last. -/
def Ledger.Handing (g : Ledger) (runID : RunID) (claim : WorkerClaim) (job : TaskJob) : Prop :=
  ∃ s before k t u l, g.stored = some s ∧ g.previous = some before ∧ t ∈ s.tasks ∧
    s.taskMap.get? k = some t ∧ before.taskMap.get? k = some u ∧
    u.attemptCount < t.attemptCount ∧ t.taskID = k ∧ job.request.task.id = k ∧
    t.status = .running ∧
    t.currentAttemptID = job.request.attemptID ∧ t.lease = some l ∧
    l.workerID = claim.workerID ∧ l.attemptID = job.request.attemptID ∧
    job.request.attemptID = attemptIDFor (taskRunIDFor runID k) t.attemptCount ∧
    job.context = taskContext

/-- The claim is of the worker spawned last for its slot. An ID that is empty passes for
that of a slot without a worker. -/
def Ledger.Manned (g : Ledger) (claim : WorkerClaim) : Prop :=
  claim.workerID ≠ [] → g.roster claim.slot = some claim.workerID

/-- What a call needs. -/
def Ledger.needs (config : EngineConfig) (runID : RunID) (g : Ledger) : EngineCall → Prop
  | .createRun s => ∃ run, s = run.snapshot ∧ Coherent run ∧ run.id = runID ∧
      (g.tidy → ValidRun run)
  | .saveRun s => ∃ s₀ base run, g.stored = some s₀ ∧ Stored s₀ base ∧ Advances base run ∧
      s = run.snapshot ∧ (g.tidy → ValidRun run) ∧ g.definition = some run.definition
  | .publish m => ∃ k n, m = attemptMessage runID k n ∧
      g.Holds k fun t => t.status = .ready ∧ t.attemptCount + 1 = n
  | .ack d => ∀ k n, attemptMessage runID k n ∈ g.published → validUTF8 runID = true →
      validUTF8 k = true → d.message = attemptMessage runID k n →
      g.Holds k fun t => Identified runID k t ∧ t.Past n
  | .spawnWorker w slot => config.HasSlot slot ∧ Spawnable config runID w ∧ w ∉ g.spawned
  | .respond claim (some job) =>
      g.Manned claim ∧ g.claim = some claim ∧ g.fresh ∧ g.Handing runID claim job
  | .respond claim none => claim ∈ g.taken
  | .waitWorkers => g.staff = .stopping
  | _ => True

/-- What is known of a result. -/
def Ledger.expects (runID : RunID) (g : Ledger) : (c : EngineCall) → EngineResult c → Prop
  | .createRun s, .ok stored => stored = { s with version := s.version + 1 }
  | .saveRun s, .ok stored => stored = { s with version := s.version + 1 }
  | .loadRun _, .ok (some s) => s.id = runID
  | .select _, .result r => ∃ p ∈ g.jobs, r = taskResult p.1 p.2 r.output r.err
  | _, _ => True

/-- The delivery is of an attempt of a task of this run. -/
def Ledger.Own (g : Ledger) (runID : RunID) (d : Delivery) : Prop :=
  ∃ k n, d.message = attemptMessage runID k n ∧ validUTF8 runID = true ∧ validUTF8 k = true ∧
    g.Holds k fun _ => True

/-- The stored run can be restored with the definition, and every handler is known. -/
def Ledger.Resumable (g : Ledger) (config : EngineConfig) (d : WorkflowDefinition) : Prop :=
  (∀ task ∈ d.tasks, config.registered task.handler = true) ∧
    ∃ s run, g.stored = some s ∧ restoreWorkflowRun s d = .ok run

def Ledger.failed (g : Ledger) : Ledger := { g with clean := False }

/-- The ledger after a call. -/
def Ledger.note (config : EngineConfig) (runID : RunID) (g : Ledger) :
    (c : EngineCall) → EngineResult c → Ledger
  | .now, t => { g with tidy := g.tidy ∧ 0 < t }
  | .createRun _, .ok s => { g with stored := some s, fresh := False }
  | .saveRun _, .ok s => { g with stored := some s, previous := g.stored, fresh := True }
  | .loadRun _, .ok (some s) => { g with
      stored := some s
      fresh := False
      tidy := g.tidy ∧ Usable config runID s }
  | .saveWorkflow d, .ok _ => { g with definition := some (cloneDefinition d) }
  | .loadWorkflow _, .ok (some d) => { g with
      definition := some (cloneDefinition d)
      clean := g.clean ∧ g.Resumable config d }
  | .publish m, .ok _ => { g with published := m :: g.published }
  | .publish m, .error _ => { g.failed with published := m :: g.published }
  | .ack _, .error _ => g.failed
  | .nack _, .error (.failed _) => g.failed
  | .progress _, .error _ => g.failed
  | .saveWorkflow _, .error _ => g.failed
  | .createRun _, .error _ => g.failed
  | .saveRun _, .error _ => g.failed
  | .loadRun _, _ => g.failed
  | .loadWorkflow _, _ => g.failed
  | .spawnWorker w slot, _ => { g with
      spawned := w :: g.spawned
      roster := Function.update g.roster slot (some w)
      staff := .hired }
  | .cancelWorkers, _ => { g with staff := .stopping }
  | .waitWorkers, _ => { g with staff := .gone }
  | .respond claim (some job), _ => { g with
      claim := none
      fresh := False
      jobs := (claim, job) :: g.jobs
      outstanding := (claim.workerID, job.request.attemptID) :: g.outstanding }
  | .respond _ none, _ => { g with claim := none }
  | .select _, .claim claim => { g with
      claim := some claim
      taken := claim :: g.taken
      tidy := g.tidy ∧ ∀ a, (claim.workerID, a) ∉ g.outstanding
      clean := g.clean ∧ g.Own runID claim.delivery }
  | .select _, .result r => { g with
      outstanding := g.outstanding.filter (· ≠ (r.workerID, r.attemptID)) }
  | .select _, .brokerError .. => g.failed
  | _, _ => g

def schedulerContract (config : EngineConfig) (runID : RunID) :
    Contract EngineCall EngineResult Ledger :=
  Contract.of (Ledger.needs config runID) (Ledger.expects runID) (Ledger.note config runID)

end ForgeFlow.Execution
