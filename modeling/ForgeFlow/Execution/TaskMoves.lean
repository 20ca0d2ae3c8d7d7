import Mathlib.Logic.Relation
import ForgeFlow.Execution.Operations

/-!
# How a task run can change

`TaskMove` lists every change an operation makes to one task; `Evolves` says that
a run changed by such moves only. Each operation satisfies it, so an invariant of
tasks is proved once, against the moves.
-/

namespace ForgeFlow.Execution

open ForgeFlow.Base ForgeFlow.Workflow Relation

variable {timestamp now d : Int} {w : WorkerID} {k : TaskID} {a : AttemptID}

/-- What an operation is free to do to a task: make it ready, start it for a
worker, cancel it. The other moves are always open to it. -/
structure Permits where
  ready : Prop := False
  start : WorkerID → Prop := fun _ => False
  cancel : Prop := False

/-- One permitted change of the task `taskID`, stamped no earlier than `since`. -/
inductive TaskMove (runID : RunID) (since : Int) (policy : RetryPolicy) (taskID : TaskID)
    (p : Permits) : TaskRun → TaskRun → Prop where
  | markReady {t : TaskRun} (timestamp : Int) (hs : since ≤ timestamp)
      (h : t.status = .pending) (hp : p.ready) :
      TaskMove runID since policy taskID p t (t.enter runID taskID .ready [] none timestamp)
  | start {t : TaskRun} (workerID : WorkerID) (leaseDuration timestamp : Int)
      (hs : since ≤ timestamp) (h : t.status = .ready) (hw : validIdentifier workerID = true)
      (hd : 0 < leaseDuration) (hp : p.start workerID) :
      TaskMove runID since policy taskID p t
        (t.startAttempt runID taskID workerID leaseDuration timestamp)
  | renew {t : TaskRun} (workerID : WorkerID) (leaseDuration timestamp : Int)
      (hs : since ≤ timestamp) (hd : 0 < leaseDuration) :
      TaskMove runID since policy taskID p t (t.renew workerID leaseDuration timestamp)
  | complete {t : TaskRun} (output : GoString) (taskErr : Option TaskError) (timestamp : Int)
      (hs : since ≤ timestamp) (h : t.status = .running) :
      TaskMove runID since policy taskID p t (t.complete policy output taskErr timestamp).1
  | recover {t : TaskRun} (timestamp : Int) (hs : since ≤ timestamp) (h : t.status = .running) :
      TaskMove runID since policy taskID p t (t.recover runID taskID policy timestamp).1
  | promote {t : TaskRun} (timestamp : Int) (hs : since ≤ timestamp)
      (h : t.status = .retryWaiting) :
      TaskMove runID since policy taskID p t (t.promote timestamp)
  | cancel {t : TaskRun} (cause : Option TaskError) (timestamp : Int) (hs : since ≤ timestamp)
      (hp : p.cancel) :
      TaskMove runID since policy taskID p t (t.cancel cause timestamp)

/-- The identity of a task run: its IDs follow from the run, the task and the
attempt count, and only a running task is leased, under its current attempt. -/
structure Identified (runID : RunID) (taskID : TaskID) (t : TaskRun) : Prop where
  task : t.taskID = taskID
  taskRun : t.taskRunID = taskRunIDFor runID taskID
  attempts : 0 ≤ t.attemptCount
  attempt : t.currentAttemptID =
    if t.attemptCount = 0 then [] else attemptIDFor (taskRunIDFor runID taskID) t.attemptCount
  running : t.status = .running → t.attemptCount ≠ 0
  lease : ∀ l, t.lease = some l → t.status = .running ∧ l.attemptID = t.currentAttemptID ∧
    l.taskRunID = taskRunIDFor runID taskID

/-- An attempt has ended: the lease is gone, the IDs and the count stay, and the
task is done, waits for a retry with a deadline, or can be dispatched again. -/
structure AttemptEnded (timestamp : Int) (t t' : TaskRun) : Prop where
  task : t'.taskID = t.taskID
  taskRun : t'.taskRunID = t.taskRunID
  attempts : t'.attemptCount = t.attemptCount
  attempt : t'.currentAttemptID = t.currentAttemptID
  lease : t'.lease = none
  updated : t'.updatedAt = timestamp
  started : t'.startedAt = t.startedAt
  finished : t'.finishedAt = timestamp
  status : (t'.status = .succeeded ∨ t'.status = .ready ∨ t'.status = .failed) ∧
      t'.nextAttemptAt = 0 ∨
    t'.status = .retryWaiting ∧ timestamp < t'.nextAttemptAt

theorem retryOrFail_ended {t u : TaskRun} (policy : RetryPolicy)
    (retryable : Bool) (hid : u.taskID = t.taskID ∧ u.taskRunID = t.taskRunID)
    (ha : u.attemptCount = t.attemptCount ∧ u.currentAttemptID = t.currentAttemptID)
    (hl : u.lease = none) (ht : u.updatedAt = timestamp ∧ u.finishedAt = timestamp)
    (hs : u.startedAt = t.startedAt) (hn : u.nextAttemptAt = 0) :
    AttemptEnded timestamp t (u.retryOrFail policy retryable timestamp).1 := by
  unfold TaskRun.retryOrFail
  split
  · simp only
    split
    · exact ⟨hid.1, hid.2, ha.1, ha.2, hl, ht.1, hs, ht.2, .inl ⟨.inr (.inl rfl), hn⟩⟩
    · rename_i hd
      have hnn := RetryPolicy.retryDelay_nonneg policy u.attemptCount
      exact ⟨hid.1, hid.2, ha.1, ha.2, hl, ht.1, hs, ht.2,
        .inr ⟨rfl, by show timestamp < timestamp + _; omega⟩⟩
  · exact ⟨hid.1, hid.2, ha.1, ha.2, hl, ht.1, hs, ht.2, .inl ⟨.inr (.inr rfl), hn⟩⟩

theorem complete_ended (t : TaskRun) (policy : RetryPolicy) (output : GoString)
    (taskErr : Option TaskError) (timestamp : Int) :
    AttemptEnded timestamp t (t.complete policy output taskErr timestamp).1 := by
  unfold TaskRun.complete
  cases taskErr with
  | none => exact ⟨rfl, rfl, rfl, rfl, rfl, rfl, rfl, rfl, .inl ⟨.inl rfl, rfl⟩⟩
  | some e => exact retryOrFail_ended policy _ ⟨rfl, rfl⟩ ⟨rfl, rfl⟩ rfl ⟨rfl, rfl⟩ rfl rfl

/-- A completion that ends the attempt reports what became of the task. -/
theorem complete_outcome (t : TaskRun) (policy : RetryPolicy) (output : GoString)
    (taskErr : Option TaskError) (timestamp : Int) :
    (t.complete policy output taskErr timestamp).2 ≠ .ignored ∧
      ((t.complete policy output taskErr timestamp).2 = .succeeded ↔
        (t.complete policy output taskErr timestamp).1.status = .succeeded) ∧
      ((t.complete policy output taskErr timestamp).2 = .failed ↔
        (t.complete policy output taskErr timestamp).1.status = .failed) := by
  unfold TaskRun.complete
  cases taskErr with
  | none => simp
  | some e =>
    simp only [TaskRun.retryOrFail]
    split
    · split <;> simp
    · simp

section

variable {runID : RunID} {since : Int} {policy : RetryPolicy} {taskID : TaskID} {p : Permits}
  {t t' : TaskRun}

theorem Identified.attempt_ne_nil (h : Identified runID taskID t) (hc : t.attemptCount ≠ 0) :
    t.currentAttemptID = attemptIDFor (taskRunIDFor runID taskID) t.attemptCount := by
  rw [h.attempt, if_neg hc]

/-- An identified task has no attempt ID to fill in when its lease is recovered. -/
theorem recover_eq (h : Identified runID taskID t) (policy : RetryPolicy) (timestamp : Int) :
    t.recover runID taskID policy timestamp =
      let ended := ({ t with
        lease := none
        output := []
        error := leaseExpiredText runID taskID t.currentAttemptID
        updatedAt := timestamp
        finishedAt := timestamp
        nextAttemptAt := 0 } : TaskRun).retryOrFail policy true timestamp
      (ended.1, ⟨taskID, t.currentAttemptID, t.leasedTo.getD [], ended.2⟩) := by
  have hno : ¬(t.currentAttemptID = [] ∧ 0 < t.attemptCount) := by
    rintro ⟨hnil, hpos⟩
    rw [h.attempt_ne_nil (by omega)] at hnil
    exact attemptIDFor_ne_nil _ _ hnil
  simp only [TaskRun.recover, if_neg hno]
  rfl

theorem recover_ended (h : Identified runID taskID t) (policy : RetryPolicy) (timestamp : Int) :
    AttemptEnded timestamp t (t.recover runID taskID policy timestamp).1 := by
  rw [recover_eq h]
  exact retryOrFail_ended policy _ ⟨rfl, rfl⟩ ⟨rfl, rfl⟩ rfl ⟨rfl, rfl⟩ rfl rfl

theorem Identified.ended (h : Identified runID taskID t)
    (he : AttemptEnded timestamp t t') : Identified runID taskID t' where
  task := he.task.trans h.task
  taskRun := he.taskRun.trans h.taskRun
  attempts := by rw [he.attempts]; exact h.attempts
  attempt := by rw [he.attempt, he.attempts]; exact h.attempt
  running := by
    intro hr
    rcases he.status with ⟨hs, -⟩ | ⟨hs, -⟩
    · rw [hr] at hs
      exact absurd hs (by decide)
    · rw [hr] at hs
      exact absurd hs (by decide)
  lease := by
    intro l hl
    rw [he.lease] at hl
    cases hl

/-- Renewing touches the expiry of the lease and the update time only. -/
theorem renew_cases (t : TaskRun) (workerID : WorkerID) (leaseDuration timestamp : Int) :
    t.renew workerID leaseDuration timestamp = t ∨
      ∃ l, t.lease = some l ∧ t.status = .running ∧ l.workerID = workerID ∧
        timestamp < l.expiresAt ∧
        t.renew workerID leaseDuration timestamp =
          { t with
            lease := some { l with expiresAt := timestamp + leaseDuration }
            updatedAt := timestamp } := by
  unfold TaskRun.renew
  split
  · exact .inl rfl
  · rename_i l hl
    split
    · rename_i hc
      exact .inr ⟨l, hl, hc.1, hc.2.1, hc.2.2, rfl⟩
    · exact .inl rfl

/-- Cancelling a finished task leaves it alone. -/
theorem cancel_cases (t : TaskRun) (cause : Option TaskError) (timestamp : Int) :
    t.status.unfinished = false ∧ t.cancel cause timestamp = t ∨
      t.status.unfinished = true ∧ t.cancel cause timestamp =
        { t with
          status := .canceled
          output := []
          error := (cause.map TaskError.text).getD []
          updatedAt := timestamp
          finishedAt := timestamp
          nextAttemptAt := 0
          lease := none } := by
  unfold TaskRun.cancel
  split
  · rename_i h
    exact .inr ⟨h, rfl⟩
  · rename_i h
    exact .inl ⟨by simpa using h, rfl⟩

theorem Identified.move (h : Identified runID taskID t)
    (hm : TaskMove runID since policy taskID p t t') : Identified runID taskID t' := by
  cases hm with
  | markReady timestamp hs hr hp =>
    refine ⟨h.task, h.taskRun, h.attempts, h.attempt, nofun, fun l hl => ?_⟩
    have := (h.lease l hl).1
    rw [hr] at this
    cases this
  | start w d timestamp hs hr hw hd hp =>
    have hn := h.attempts
    have hpos : t.attemptCount + 1 ≠ 0 := by omega
    refine ⟨h.task, rfl, by show 0 ≤ t.attemptCount + 1; omega, ?_, fun _ => hpos, ?_⟩
    · exact (if_neg hpos).symm
    · intro l hl
      cases hl
      exact ⟨rfl, rfl, rfl⟩
  | renew w d timestamp hs hd =>
    rcases renew_cases t w d timestamp with he | ⟨l, hl, -, -, -, he⟩
    · rw [he]
      exact h
    · rw [he]
      refine ⟨h.task, h.taskRun, h.attempts, h.attempt, h.running, ?_⟩
      intro l' hl'
      cases hl'
      exact h.lease l hl
  | complete output taskErr timestamp hs hr => exact h.ended (complete_ended t policy _ _ _)
  | recover timestamp hs hr => exact h.ended (recover_ended h policy timestamp)
  | promote timestamp hs hr =>
    refine ⟨h.task, h.taskRun, h.attempts, h.attempt, nofun, fun l hl => ?_⟩
    have := (h.lease l hl).1
    rw [hr] at this
    cases this
  | cancel cause timestamp hs hp =>
    rcases cancel_cases t cause timestamp with ⟨-, he⟩ | ⟨-, he⟩
    · rw [he]
      exact h
    · rw [he]
      exact ⟨h.task, h.taskRun, h.attempts, h.attempt, nofun, nofun⟩

/-- A finished task does not change any more. -/
theorem TaskMove.frozen (hm : TaskMove runID since policy taskID p t t')
    (hterm : t.status.terminal = true) : t' = t := by
  cases hm with
  | markReady timestamp hs hr hp => rw [hr] at hterm; cases hterm
  | start w d timestamp hs hr hw hd hp => rw [hr] at hterm; cases hterm
  | renew w d timestamp hs hd =>
    rcases renew_cases t w d timestamp with he | ⟨l, -, hr, -, -, -⟩
    · exact he
    · rw [hr] at hterm; cases hterm
  | complete output taskErr timestamp hs hr => rw [hr] at hterm; cases hterm
  | recover timestamp hs hr => rw [hr] at hterm; cases hterm
  | promote timestamp hs hr => rw [hr] at hterm; cases hterm
  | cancel cause timestamp hs hp =>
    rcases cancel_cases t cause timestamp with ⟨-, he⟩ | ⟨hu, -⟩
    · exact he
    · cases hst : t.status <;> simp [hst, TaskRunStatus.terminal, TaskRunStatus.unfinished] at *

theorem TaskMove.mono {since' : Int} (hs : since' ≤ since)
    (hm : TaskMove runID since policy taskID p t t') :
    TaskMove runID since' policy taskID p t t' := by
  cases hm with
  | markReady timestamp h hr hp => exact .markReady timestamp (hs.trans h) hr hp
  | start w d timestamp h hr hw hd hp => exact .start w d timestamp (hs.trans h) hr hw hd hp
  | renew w d timestamp h hd => exact .renew w d timestamp (hs.trans h) hd
  | complete output taskErr timestamp h hr =>
    exact .complete output taskErr timestamp (hs.trans h) hr
  | recover timestamp h hr => exact .recover timestamp (hs.trans h) hr
  | promote timestamp h hr => exact .promote timestamp (hs.trans h) hr
  | cancel cause timestamp h hp => exact .cancel cause timestamp (hs.trans h) hp

/-- A lease is new only to a worker the task may be started for. -/
theorem TaskMove.leasedTo (hm : TaskMove runID since policy taskID p t t')
    (hi : Identified runID taskID t) (h : t'.leasedTo = some w) :
    t.leasedTo = some w ∨ p.start w := by
  have hended : ∀ timestamp, ¬AttemptEnded timestamp t t' := by
    intro timestamp he
    rw [TaskRun.leasedTo, he.lease] at h
    cases h
  cases hm with
  | markReady timestamp hs hr hp => exact .inl h
  | start w' d timestamp hs hr hw hd hp =>
    cases h
    exact .inr hp
  | renew w' d timestamp hs hd =>
    rcases renew_cases t w' d timestamp with he | ⟨l, hl, -, -, -, he⟩
    · exact .inl (he ▸ h)
    · rw [he] at h
      exact .inl (by simpa [TaskRun.leasedTo, hl] using h)
  | complete output taskErr timestamp hs hr =>
    exact absurd (complete_ended t policy _ _ _) (hended timestamp)
  | recover timestamp hs hr => exact absurd (recover_ended hi policy timestamp) (hended timestamp)
  | promote timestamp hs hr => exact .inl h
  | cancel cause timestamp hs hp =>
    rcases cancel_cases t cause timestamp with ⟨-, he⟩ | ⟨-, he⟩
    · exact .inl (he ▸ h)
    · rw [he] at h
      cases h

/-- A pending task stays as it is until it is made ready or canceled. -/
theorem TaskMove.pending_frozen (hm : TaskMove runID since policy taskID p t t')
    (h : t.status = .pending) (hready : ¬p.ready) (hcancel : ¬p.cancel) : t' = t := by
  cases hm with
  | markReady timestamp hs hr hp => exact absurd hp hready
  | start w d timestamp hs hr hw hd hp => rw [h] at hr; cases hr
  | renew w d timestamp hs hd =>
    rcases renew_cases t w d timestamp with he | ⟨l, -, hr, -, -, -⟩
    · exact he
    · rw [h] at hr; cases hr
  | complete output taskErr timestamp hs hr => rw [h] at hr; cases hr
  | recover timestamp hs hr => rw [h] at hr; cases hr
  | promote timestamp hs hr => rw [h] at hr; cases hr
  | cancel cause timestamp hs hp => exact absurd hp hcancel

end

/-! ## Moves of a whole run -/

/-- Every dependency of the task has succeeded. -/
def WorkflowRun.Unlocked (run : WorkflowRun) (taskID : TaskID) : Prop :=
  ∀ task ∈ run.definition.tasks, task.id = taskID → ∀ dep ∈ task.dependencies.elems,
    ∃ u, run.tasks.get? dep = some u ∧ u.status = .succeeded

/-- The run kept its identity and its set of tasks, and each task made moves. -/
structure Evolves (permits : TaskID → Permits) (run run' : WorkflowRun) : Prop where
  id : run'.id = run.id
  definition : run'.definition = run.definition
  created : run'.createdAt = run.createdAt
  updated : run.updatedAt ≤ run'.updatedAt
  absent : ∀ k, run.tasks.get? k = none → run'.tasks.get? k = none
  moves : ∀ k t, run.tasks.get? k = some t → ∃ t', run'.tasks.get? k = some t' ∧
    ReflTransGen (TaskMove run.id run.updatedAt (run.retryPolicy k) k (permits k)) t t'

structure Coherent (run : WorkflowRun) : Prop where
  tasks : ∀ k t, run.tasks.get? k = some t → Identified run.id k t
  workers : ∀ w hb, run.workers.get? w = some hb → hb.workerID = w
  definition : cloneDefinition run.definition = run.definition

section

variable {permits : TaskID → Permits} {run run' run'' : WorkflowRun}

/-- A run in which every task stays or makes one move. -/
theorem Evolves.of_pointwise (hid : run'.id = run.id) (hd : run'.definition = run.definition)
    (hc : run'.createdAt = run.createdAt) (hu : run.updatedAt ≤ run'.updatedAt)
    (f : TaskID → TaskRun → TaskRun)
    (hget : ∀ k, run'.tasks.get? k = (run.tasks.get? k).map (f k))
    (hf : ∀ k t, run.tasks.get? k = some t → f k t = t ∨
      TaskMove run.id run.updatedAt (run.retryPolicy k) k (permits k) t (f k t)) :
    Evolves permits run run' := by
  refine ⟨hid, hd, hc, hu, fun k hk => by simp [hget, hk], fun k t ht => ?_⟩
  refine ⟨f k t, by simp [hget, ht], ?_⟩
  rcases hf k t ht with he | hm
  · rw [he]
  · exact ReflTransGen.single hm

theorem Evolves.of_tasks_eq (hid : run'.id = run.id) (hd : run'.definition = run.definition)
    (hc : run'.createdAt = run.createdAt) (hu : run.updatedAt ≤ run'.updatedAt)
    (ht : run'.tasks = run.tasks) : Evolves permits run run' :=
  .of_pointwise hid hd hc hu (fun _ t => t) (fun k => by simp [ht]) (fun _ _ _ => .inl rfl)

theorem Evolves.refl (run : WorkflowRun) : Evolves permits run run :=
  .of_tasks_eq rfl rfl rfl (le_refl _) rfl

theorem Evolves.of_insert {t t' : TaskRun} (hid : run'.id = run.id)
    (hd : run'.definition = run.definition) (hc : run'.createdAt = run.createdAt)
    (hu : run.updatedAt ≤ run'.updatedAt) (ht : run.tasks.get? k = some t)
    (htasks : run'.tasks = run.tasks.insert k t')
    (hm : TaskMove run.id run.updatedAt (run.retryPolicy k) k (permits k) t t') :
    Evolves permits run run' := by
  refine .of_pointwise hid hd hc hu (fun k' u => if k' = k then t' else u) ?_ ?_
  · intro k'
    rw [htasks, KeyMap.get?_insert]
    by_cases hk : k' = k
    · subst hk
      simp [ht]
    · simp [hk]
  · intro k' u hu'
    by_cases hk : k' = k
    · subst hk
      rw [ht] at hu'
      cases hu'
      simpa using Or.inr hm
    · simp [hk]

theorem retryPolicy_congr (h : run'.definition = run.definition) (k : TaskID) :
    run'.retryPolicy k = run.retryPolicy k := by
  simp only [WorkflowRun.retryPolicy, h]

theorem Evolves.trans (h : Evolves permits run run') (h' : Evolves permits run' run'') :
    Evolves permits run run'' := by
  refine ⟨h'.id.trans h.id, h'.definition.trans h.definition, h'.created.trans h.created,
    h.updated.trans h'.updated, fun k hk => h'.absent k (h.absent k hk), fun k t ht => ?_⟩
  obtain ⟨u, hu, hmu⟩ := h.moves k t ht
  obtain ⟨v, hv, hmv⟩ := h'.moves k u hu
  refine ⟨v, hv, hmu.trans ?_⟩
  rw [h.id, retryPolicy_congr h.definition] at hmv
  exact ReflTransGen.mono (fun _ _ hm => hm.mono h.updated) _ _ hmv

/-- A task of the run after the change, and where it came from. -/
theorem Evolves.origin (he : Evolves permits run run') {t' : TaskRun}
    (ht' : run'.tasks.get? k = some t') : ∃ t, run.tasks.get? k = some t ∧
      ReflTransGen (TaskMove run.id run.updatedAt (run.retryPolicy k) k (permits k)) t t' := by
  cases ht : run.tasks.get? k with
  | none =>
    rw [he.absent k ht] at ht'
    cases ht'
  | some t =>
    obtain ⟨u, hu, hmoves⟩ := he.moves k t ht
    rw [ht'] at hu
    cases hu
    exact ⟨t, rfl, hmoves⟩

theorem Evolves.identified (h : Evolves permits run run')
    (hi : ∀ k t, run.tasks.get? k = some t → Identified run.id k t) :
    ∀ k t, run'.tasks.get? k = some t → Identified run'.id k t := by
  intro k t' ht'
  obtain ⟨t, ht, hmoves⟩ := h.origin ht'
  rw [h.id]
  clear ht'
  induction hmoves with
  | refl => exact hi k t ht
  | tail _ hm ih => exact ih.move hm

/-- What one move keeps of a task, a change of the whole run keeps: seen from a task of
the run after the change, -/
theorem Evolves.carries (h : Evolves permits run run') (hc : Coherent run)
    {P : TaskRun → Prop} (hstep : ∀ u u', Identified run.id k u →
      TaskMove run.id run.updatedAt (run.retryPolicy k) k (permits k) u u' → P u → P u')
    {t' : TaskRun} (ht' : run'.tasks.get? k = some t') :
    ∃ t, run.tasks.get? k = some t ∧ (P t → P t') := by
  obtain ⟨t, ht, hmoves⟩ := h.origin ht'
  refine ⟨t, ht, fun hP => ?_⟩
  have hboth : Identified run.id k t' ∧ P t' := by
    clear ht'
    induction hmoves with
    | refl => exact ⟨hc.tasks k t ht, hP⟩
    | tail _ hm ih => exact ⟨ih.1.move hm, hstep _ _ ih.1 hm ih.2⟩
  exact hboth.2

/-- and from a task of the run before it. -/
theorem Evolves.keeps (h : Evolves permits run run') (hc : Coherent run)
    {P : TaskRun → Prop} (hstep : ∀ u u', Identified run.id k u →
      TaskMove run.id run.updatedAt (run.retryPolicy k) k (permits k) u u' → P u → P u')
    {t : TaskRun} (ht : run.tasks.get? k = some t) (hP : P t) :
    ∃ t', run'.tasks.get? k = some t' ∧ P t' := by
  obtain ⟨t', ht', -⟩ := h.moves k t ht
  obtain ⟨u, hu, hkept⟩ := h.carries hc hstep ht'
  rw [ht] at hu
  cases hu
  exact ⟨t', ht', hkept hP⟩

/-- Finished tasks stay exactly as they are. -/
theorem Evolves.frozen (h : Evolves permits run run') {t : TaskRun}
    (ht : run.tasks.get? k = some t) (hterm : t.status.terminal = true) :
    run'.tasks.get? k = some t := by
  obtain ⟨t', ht', hmoves⟩ := h.moves k t ht
  have heq : t' = t := by
    clear ht'
    induction hmoves with
    | refl => rfl
    | tail _ hm ih =>
      subst ih
      exact hm.frozen hterm
  rw [ht', heq]

end

/-! ## The operations -/

theorem le_nextTimestamp (run : WorkflowRun) (now : Int) :
    run.updatedAt ≤ run.nextTimestamp now := by
  unfold WorkflowRun.nextTimestamp
  split
  · exact le_refl _
  · omega

theorem checkWorker_ok_iff (workerID : WorkerID) (leaseDuration : Int) :
    checkWorker workerID leaseDuration = .ok () ↔
      validIdentifier workerID = true ∧ 0 < leaseDuration := by
  simp [checkWorker]

section

variable {permits : TaskID → Permits} {run run' : WorkflowRun}

theorem transitionWorkflow_ok {target : WorkflowRunStatus}
    (h : run.transitionWorkflow target now = .ok run') :
    legalWorkflowTransition run.status target = true ∧
      run' = { run with status := target, updatedAt := run.nextTimestamp now } := by
  unfold WorkflowRun.transitionWorkflow at h
  split at h
  · cases h
  · rename_i hl
    cases h
    exact ⟨by simpa using hl, rfl⟩

theorem transitionWorkflow_evolves {target : WorkflowRunStatus}
    (h : run.transitionWorkflow target now = .ok run') : Evolves permits run run' := by
  obtain ⟨-, rfl⟩ := transitionWorkflow_ok h
  exact .of_tasks_eq rfl rfl rfl (le_nextTimestamp run now) rfl

theorem transitionTask_ready_evolves (h : run.transitionTask k .ready [] none now = .ok run')
    (hp : ∃ t, run.tasks.get? k = some t ∧ t.status = .pending) (hu : (permits k).ready) :
    Evolves permits run run' := by
  obtain ⟨t, ht, hpend⟩ := hp
  simp only [WorkflowRun.transitionTask, ht, hpend] at h
  cases h
  exact .of_insert rfl rfl rfl (le_nextTimestamp run now) ht rfl
    (.markReady _ (le_nextTimestamp run now) hpend hu)

theorem cancelUnfinished_evolves (run : WorkflowRun) (cause : Option TaskError) (now : Int)
    (hp : ∀ k, (permits k).cancel) : Evolves permits run (run.cancelUnfinished cause now) := by
  refine .of_pointwise rfl rfl rfl ?_ (fun _ t => t.cancel cause (run.nextTimestamp now))
    (fun k => KeyMap.get?_map _ _ _) (fun k t _ => .inr (.cancel _ _ (le_nextTimestamp run now) (hp k)))
  show run.updatedAt ≤ if _ then _ else _
  split
  · exact le_nextTimestamp run now
  · exact le_refl _

theorem recordWorkerHeartbeat_ok (h : run.recordWorkerHeartbeat w d now = .ok run') :
    validIdentifier w = true ∧ 0 < d ∧ run' = { run with
      workers := run.workers.insert w ⟨w, run.nextTimestamp now⟩
      tasks := run.tasks.map fun _ task => task.renew w d (run.nextTimestamp now)
      updatedAt := run.nextTimestamp now } := by
  obtain ⟨hc, heq⟩ := bind_unit_ok_iff.mp h
  obtain ⟨hw, hd⟩ := (checkWorker_ok_iff w d).mp hc
  cases heq
  exact ⟨hw, hd, rfl⟩

theorem recordWorkerHeartbeat_evolves
    (h : run.recordWorkerHeartbeat w d now = .ok run') : Evolves permits run run' := by
  obtain ⟨-, hd, rfl⟩ := recordWorkerHeartbeat_ok h
  exact .of_pointwise rfl rfl rfl (le_nextTimestamp run now)
    (fun _ t => t.renew w d (run.nextTimestamp now)) (fun k => KeyMap.get?_map _ _ _)
    (fun k t _ => .inr (.renew _ _ _ (le_nextTimestamp run now) hd))

theorem startTaskAttempt_ok (h : run.startTaskAttempt k w d now = .ok (run', a)) :
    validIdentifier w = true ∧ 0 < d ∧ ∃ t, run.tasks.get? k = some t ∧ t.status = .ready ∧
      a = (t.startAttempt run.id k w d (run.nextTimestamp now)).currentAttemptID ∧
      run' = { run with
        tasks := run.tasks.insert k (t.startAttempt run.id k w d (run.nextTimestamp now))
        workers := run.workers.insert w ⟨w, run.nextTimestamp now⟩
        updatedAt := run.nextTimestamp now } := by
  obtain ⟨hc, heq⟩ := bind_unit_ok_iff.mp h
  obtain ⟨hw, hd⟩ := (checkWorker_ok_iff w d).mp hc
  split at heq
  · cases heq
  · rename_i t ht
    split at heq
    · cases heq
    · rename_i hr
      cases heq
      exact ⟨hw, hd, t, ht, not_not.mp hr, rfl, rfl⟩

theorem startTaskAttempt_evolves
    (h : run.startTaskAttempt k w d now = .ok (run', a)) (hp : (permits k).start w) :
    Evolves permits run run' := by
  obtain ⟨hw, hd, t, ht, hr, -, rfl⟩ := startTaskAttempt_ok h
  exact .of_insert rfl rfl rfl (le_nextTimestamp run now) ht rfl
    (.start w d _ (le_nextTimestamp run now) hr hw hd hp)

/-- A completion is for an unknown task, ignored, or ends the attempt. -/
theorem completeTaskAttempt_cases (run : WorkflowRun) (k : TaskID) (r : TaskRunID) (w : WorkerID)
    (a : AttemptID) (output : GoString) (taskErr : Option TaskError) (now : Int) :
    (run.tasks.get? k = none ∧ run.completeTaskAttempt k r w a output taskErr now =
        .error (.unknownTaskRun run.id k)) ∨
    ∃ t, run.tasks.get? k = some t ∧
      (t.runsUnder r w a = false ∧
          run.completeTaskAttempt k r w a output taskErr now = .ok (run, .ignored) ∨
        t.runsUnder r w a = true ∧
          run.completeTaskAttempt k r w a output taskErr now =
            .ok ({ run with
              tasks := run.tasks.insert k
                (t.complete (run.retryPolicy k) output taskErr (run.nextTimestamp now)).1
              updatedAt := run.nextTimestamp now },
              (t.complete (run.retryPolicy k) output taskErr (run.nextTimestamp now)).2)) := by
  unfold WorkflowRun.completeTaskAttempt
  cases ht : run.tasks.get? k with
  | none => exact .inl ⟨rfl, rfl⟩
  | some t =>
    refine .inr ⟨t, rfl, ?_⟩
    cases hr : t.runsUnder r w a with
    | false => exact .inl ⟨rfl, by simp [hr]⟩
    | true => exact .inr ⟨rfl, by simp [hr]⟩

theorem runsUnder_running {t : TaskRun} {r : TaskRunID} (h : t.runsUnder r w a = true) :
    t.status = .running ∧ t.taskRunID = r ∧ t.currentAttemptID = a ∧
      ∃ l, t.lease = some l ∧ l.attemptID = a ∧ l.workerID = w := by
  unfold TaskRun.runsUnder at h
  cases hl : t.lease with
  | none => simp [hl] at h
  | some l =>
    simp only [hl, Bool.and_eq_true, decide_eq_true_eq] at h
    obtain ⟨⟨⟨⟨h1, h2⟩, h3⟩, h4⟩, h5⟩ := h
    exact ⟨h1, h2, h3, l, rfl, h4, h5⟩

theorem completeTaskAttempt_evolves {r : TaskRunID}
    {output : GoString} {taskErr : Option TaskError} {outcome : CompletionOutcome}
    (h : run.completeTaskAttempt k r w a output taskErr now = .ok (run', outcome)) :
    Evolves permits run run' := by
  rcases completeTaskAttempt_cases run k r w a output taskErr now with
    ⟨-, he⟩ | ⟨t, ht, ⟨-, he⟩ | ⟨hr, he⟩⟩
  · rw [he] at h
    cases h
  · rw [he] at h
    cases h
    exact .refl run
  · rw [he] at h
    cases h
    exact .of_insert rfl rfl rfl (le_nextTimestamp run now) ht rfl
      (.complete output taskErr _ (le_nextTimestamp run now) (runsUnder_running hr).1)

theorem leaseExpired_running {t : TaskRun}
    (h : t.leaseExpired timestamp = true) : t.status = .running := by
  simp only [TaskRun.leaseExpired, Bool.and_eq_true, decide_eq_true_eq] at h
  exact h.1

theorem recoverExpiredLeases_evolves (run : WorkflowRun) (now : Int) :
    Evolves permits run (run.recoverExpiredLeases now).1 := by
  refine .of_pointwise rfl rfl rfl ?_ (fun k t =>
    if t.leaseExpired (run.nextTimestamp now) then
      (t.recover run.id k (run.retryPolicy k) (run.nextTimestamp now)).1
    else t) (fun k => KeyMap.get?_map _ _ _) ?_
  · show run.updatedAt ≤ if _ then _ else _
    split
    · exact le_refl _
    · exact le_nextTimestamp run now
  · intro k t ht
    by_cases he : t.leaseExpired (run.nextTimestamp now) = true
    · rw [if_pos he]
      exact .inr (.recover _ (le_nextTimestamp run now) (leaseExpired_running he))
    · exact .inl (if_neg he)

theorem promoteDueRetries_evolves (run : WorkflowRun) (now : Int) :
    Evolves permits run (run.promoteDueRetries now).1 := by
  refine .of_pointwise rfl rfl rfl ?_ (fun k t =>
    if t.retryDue (run.nextTimestamp now) then t.promote (run.nextTimestamp now) else t)
    (fun k => KeyMap.get?_map _ _ _) ?_
  · show run.updatedAt ≤ if _ then _ else _
    split
    · exact le_refl _
    · exact le_nextTimestamp run now
  · intro k t ht
    by_cases hd : t.retryDue (run.nextTimestamp now) = true
    · rw [if_pos hd]
      simp only [TaskRun.retryDue, Bool.and_eq_true, decide_eq_true_eq] at hd
      exact .inr (.promote _ (le_nextTimestamp run now) hd.1)
    · exact .inl (if_neg hd)

theorem stopRun_evolves (run : WorkflowRun) (target : WorkflowRunStatus)
    (cause : Option TaskError) (now now' : Int) (hp : ∀ k, (permits k).cancel) :
    Evolves permits run (stopRun run target cause now now').1 := by
  have hc := cancelUnfinished_evolves run cause now hp
  unfold stopRun
  simp only
  split
  · exact hc
  · rename_i hok
    exact hc.trans (transitionWorkflow_evolves hok)

theorem markReadyLoop_evolves : ∀ (candidates : List TaskDefinition) (run : WorkflowRun)
    (now : Nat → Int), (∀ task ∈ candidates, (permits task.id).ready) →
    Evolves permits run (markReadyLoop run candidates now).1
  | [], run, _, _ => .refl run
  | task :: rest, run, now, hu => by
    have hrest : ∀ task ∈ rest, (permits task.id).ready := fun t ht => hu t (List.mem_cons_of_mem _ ht)
    unfold markReadyLoop
    split
    · exact .refl run
    · rename_i status hst
      split
      · exact markReadyLoop_evolves rest run now hrest
      · rename_i hp
        split
        · exact .refl run
        · rename_i run₁ hok
          have hpend : ∃ t, run.tasks.get? task.id = some t ∧ t.status = .pending := by
            unfold WorkflowRun.taskStatus at hst
            split at hst
            · cases hst
            · rename_i t ht
              cases hst
              exact ⟨t, ht, not_not.mp hp⟩
          have hstep := transitionTask_ready_evolves hok hpend (hu task List.mem_cons_self)
          exact hstep.trans (markReadyLoop_evolves rest run₁ (fun i => now (i + 1)) hrest)

theorem mem_completedTaskIDs (hi : ∀ k t, run.tasks.get? k = some t → Identified run.id k t) :
    (completedTaskIDs run).contains k = true ↔
      ∃ t, run.tasks.get? k = some t ∧ t.status = .succeeded := by
  have hfold : ∀ (l : List TaskRun) (m : KeyMap TaskID Unit),
      ((l.map fun t => (t.taskID, ())).foldl (fun m e => m.insert e.1 e.2) m).contains k = true ↔
        (∃ t ∈ l, t.taskID = k) ∨ m.contains k = true := by
    intro l
    induction l with
    | nil => simp
    | cons u l ih =>
      intro m
      rw [List.map_cons, List.foldl_cons, ih, KeyMap.contains_insert]
      simp only [List.mem_cons, exists_eq_or_imp, eq_comm (a := k)]
      rw [or_left_comm, ← or_assoc]
  unfold completedTaskIDs KeyMap.ofList
  rw [hfold]
  simp only [WorkflowRun.sortedTasks, List.mem_filter, KeyMap.mem_values_iff, decide_eq_true_eq]
  constructor
  · rintro (⟨t, ⟨⟨k', ht⟩, hs⟩, rfl⟩ | hempty)
    · exact ⟨t, by rw [(hi k' t ht).task]; exact ht, hs⟩
    · cases hempty
  · rintro ⟨t, ht, hs⟩
    exact .inl ⟨t, ⟨⟨k, ht⟩, hs⟩, (hi k t ht).task⟩

/-- What `ReadyTasks` offers from completed tasks that have all succeeded is unlocked. -/
theorem unlocked_of_readyTasks {definition : WorkflowDefinition} {completed : KeyMap TaskID Unit}
    {candidates : List TaskDefinition} (hd : definition = run.definition)
    (hc : ∀ k, completed.contains k = true → ∃ t, run.tasks.get? k = some t ∧ t.status = .succeeded)
    (h : definition.readyTasks completed = .ok candidates) :
    ∀ task ∈ candidates, run.Unlocked task.id := by
  intro task htask u hu hid dep hdep
  obtain ⟨hwf, hmem, hun⟩ := WorkflowDefinition.mem_readyTasks h htask
  have hut : u = task := List.inj_on_of_nodup_map hwf.ids_nodup (hd ▸ hu) hmem hid
  subst hut
  simp only [WorkflowDefinition.unlocked, Bool.and_eq_true, List.all_eq_true] at hun
  exact hc dep (hun.2 dep hdep)

theorem markNewReady_evolves {definition : WorkflowDefinition} {completed : KeyMap TaskID Unit}
    (now : Nat → Int) (hd : definition = run.definition)
    (hc : ∀ k, completed.contains k = true →
      ∃ t, run.tasks.get? k = some t ∧ t.status = .succeeded) :
    Evolves (fun k => { ready := run.Unlocked k }) run (markNewReady run definition completed now).1 := by
  unfold markNewReady
  split
  · exact .refl run
  · rename_i candidates hok
    exact markReadyLoop_evolves candidates run now (unlocked_of_readyTasks hd hc hok)

end

/-! ## Restoring a run from its own snapshot -/

theorem Identified.restored_eq {runID : RunID} {t : TaskRun}
    (h : Identified runID k t) : t.restored runID = t := by
  have h1 : t.taskRunID ≠ [] := by
    rw [h.taskRun]
    exact taskRunIDFor_ne_nil _ _
  have h2 : ¬(t.currentAttemptID = [] ∧ 0 < t.attemptCount) := by
    rintro ⟨hnil, hpos⟩
    rw [h.attempt_ne_nil (by omega)] at hnil
    exact attemptIDFor_ne_nil _ _ hnil
  simp only [TaskRun.restored, if_neg h1, if_neg h2]

theorem restoreWorkflowRun_ok {s : WorkflowRunSnapshot} {d : WorkflowDefinition}
    {run : WorkflowRun} (h : restoreWorkflowRun s d = .ok run) :
    ValidSnapshot s ∧ d.validate = .ok () ∧ s.workflowID = d.id ∧
      s.tasks.length = d.tasks.length ∧
      (∀ task ∈ d.tasks, run.tasks.contains task.id = true) ∧
      run = restoredRun s d := by
  obtain ⟨hv, h⟩ := bind_unit_ok_iff.mp h
  split at h
  · cases h
  · rename_i u hd
    obtain ⟨hfirst, h⟩ := bind_unit_ok_iff.mp h
    obtain ⟨hall, h⟩ := bind_unit_ok_iff.mp h
    cases h
    simp only [firstError_cons, firstError_nil, decide_eq_false_iff_not, not_not, ne_eq,
      and_true] at hfirst
    refine ⟨(WorkflowRunSnapshot.validate_ok_iff s).mp hv, hd, hfirst.1, hfirst.2, ?_, rfl⟩
    simpa using hall

theorem Coherent.restored_tasks {run : WorkflowRun} (h : Coherent run) :
    KeyMap.ofList (run.sortedTasks.map fun task => (task.taskID, task.restored run.id)) =
      run.tasks := by
  have hmap : run.sortedTasks.map (fun task => (task.taskID, task.restored run.id)) =
      run.tasks.entries := by
    rw [WorkflowRun.sortedTasks, KeyMap.values, List.map_map]
    conv_rhs => rw [← List.map_id run.tasks.entries]
    apply List.map_congr_left
    rintro ⟨k, t⟩ hmem
    have hid := h.tasks k t ((KeyMap.mem_entries_iff _ _ _).mp hmem)
    simp [hid.restored_eq, hid.task]
  rw [hmap, KeyMap.ofList_entries]

theorem Coherent.restored_workers {run : WorkflowRun} (h : Coherent run) :
    KeyMap.ofList (run.sortedWorkers.map fun worker => (worker.workerID, worker)) =
      run.workers := by
  have hmap : run.sortedWorkers.map (fun worker => (worker.workerID, worker)) =
      run.workers.entries := by
    rw [WorkflowRun.sortedWorkers, KeyMap.values, List.map_map]
    conv_rhs => rw [← List.map_id run.workers.entries]
    apply List.map_congr_left
    rintro ⟨w, hb⟩ hmem
    have hid := h.workers w hb ((KeyMap.mem_entries_iff _ _ _).mp hmem)
    simp [hid]
  rw [hmap, KeyMap.ofList_entries]

/-- A coherent run comes back from its own snapshot unchanged, if it comes back. -/
theorem restore_snapshot_eq {run run' : WorkflowRun} {d : WorkflowDefinition} (h : Coherent run)
    (hd : cloneDefinition d = run.definition)
    (hr : restoreWorkflowRun run.snapshot d = .ok run') : run' = run := by
  obtain ⟨-, -, -, -, -, rfl⟩ := restoreWorkflowRun_ok hr
  simp only [restoredRun, WorkflowRun.snapshot, h.restored_tasks, h.restored_workers, hd]

end ForgeFlow.Execution
