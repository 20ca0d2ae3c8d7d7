import ForgeFlow.Workflow.Validation
import ForgeFlow.Execution.Validity

/-!
# A task is attempted as often as its policy allows

Nothing checks the limit where an attempt starts. It holds because a task that may
still start has been attempted less often than the limit: a completion and a lease
recovery let the task back only below it.
-/

namespace ForgeFlow.Execution

open ForgeFlow.Base ForgeFlow.Workflow Relation

/-- The task is yet to start, or to start again. -/
def TaskRunStatus.awaitsAttempt : TaskRunStatus → Bool
  | pending | ready | retryWaiting => true
  | _ => false

/-- The attempts of the task are within the limit, with one left if it is to start. -/
structure Limited (limit : Int) (t : TaskRun) : Prop where
  within : t.attemptCount ≤ limit
  left : t.status.awaitsAttempt = true → t.attemptCount < limit

section

variable {runID : RunID} {since : Int} {policy : RetryPolicy} {taskID : TaskID} {p : Permits}
  {t t' : TaskRun}

theorem retryOrFail_limited (h : t.attemptCount ≤ policy.effectiveMaxAttempts) (retryable : Bool)
    (timestamp : Int) :
    Limited policy.effectiveMaxAttempts (t.retryOrFail policy retryable timestamp).1 := by
  unfold TaskRun.retryOrFail
  split
  · rename_i hretry
    dsimp only
    split
    · exact ⟨h, fun _ => hretry.2⟩
    · exact ⟨h, fun _ => hretry.2⟩
  · exact ⟨h, nofun⟩

theorem Limited.move (h : Limited policy.effectiveMaxAttempts t) (hi : Identified runID taskID t)
    (hm : TaskMove runID since policy taskID p t t') :
    Limited policy.effectiveMaxAttempts t' := by
  cases hm with
  | markReady timestamp hs hr hp => exact ⟨h.within, fun _ => h.left (by rw [hr]; rfl)⟩
  | start w d timestamp hs hr hw hd hp =>
    have hleft := h.left (by rw [hr]; rfl)
    exact ⟨by show t.attemptCount + 1 ≤ _; omega, nofun⟩
  | renew w d timestamp hs hd =>
    rcases renew_cases t w d timestamp with he | ⟨l, -, -, -, -, he⟩
    · rw [he]
      exact h
    · rw [he]
      exact ⟨h.within, h.left⟩
  | complete output taskErr timestamp hs hr =>
    cases taskErr with
    | none => exact ⟨h.within, nofun⟩
    | some e =>
      refine retryOrFail_limited ?_ e.retryable timestamp
      exact h.within
  | recover timestamp hs hr =>
    rw [recover_eq hi]
    refine retryOrFail_limited ?_ true timestamp
    exact h.within
  | promote timestamp hs hr => exact ⟨h.within, fun _ => h.left (by rw [hr]; rfl)⟩
  | cancel cause timestamp hs hp =>
    rcases cancel_cases t cause timestamp with ⟨-, he⟩ | ⟨-, he⟩
    · rw [he]
      exact h
    · rw [he]
      exact ⟨h.within, nofun⟩

/-- Only a start counts an attempt. -/
theorem TaskMove.attemptCount (hm : TaskMove runID since policy taskID p t t')
    (hi : Identified runID taskID t) (hp : ∀ w, ¬p.start w) :
    t'.attemptCount = t.attemptCount := by
  cases hm with
  | markReady timestamp hs hr hp => rfl
  | start w d timestamp hs hr hw hd hstart => exact absurd hstart (hp w)
  | renew w d timestamp hs hd =>
    rcases renew_cases t w d timestamp with he | ⟨l, -, -, -, -, he⟩
    · rw [he]
    · rw [he]
  | complete output taskErr timestamp hs hr => exact (complete_ended t policy _ _ _).attempts
  | recover timestamp hs hr => exact (recover_ended hi policy timestamp).attempts
  | promote timestamp hs hr => rfl
  | cancel cause timestamp hs hp =>
    rcases cancel_cases t cause timestamp with ⟨-, he⟩ | ⟨-, he⟩
    · rw [he]
    · rw [he]

end

section

variable {permits : TaskID → Permits} {run run' : WorkflowRun}

/-- Every task is within the limit of its policy. -/
def RunLimited (run : WorkflowRun) : Prop :=
  ∀ k t, run.tasks.get? k = some t → Limited (run.retryPolicy k).effectiveMaxAttempts t

theorem RunLimited.evolves (h : RunLimited run) (hc : Coherent run)
    (he : Evolves permits run run') : RunLimited run' := by
  intro k t' ht'
  obtain ⟨t, ht, hlimited⟩ := he.carries hc
    (P := Limited (run.retryPolicy k).effectiveMaxAttempts) (fun u u' hi hm hu => hu.move hi hm) ht'
  rw [retryPolicy_congr he.definition]
  exact hlimited (h k t ht)

theorem RunLimited.applyAll (h : RunLimited run) (hc : Coherent run) (ops : List Operation) :
    RunLimited (run.applyAll ops) := by
  induction ops generalizing run with
  | nil => exact h
  | cons op ops ih => exact ih (h.evolves hc (apply_evolves hc op)) (hc.apply op)

theorem Evolves.attemptCount (he : Evolves permits run run') (hc : Coherent run) {k : TaskID}
    {t t' : TaskRun} (hp : ∀ w, ¬(permits k).start w) (ht : run.tasks.get? k = some t)
    (ht' : run'.tasks.get? k = some t') : t'.attemptCount = t.attemptCount := by
  obtain ⟨u, hu, hcount⟩ := he.carries hc (P := fun u => u.attemptCount = t.attemptCount)
    (fun u u' hi hm hu => (hm.attemptCount hi hp).trans hu) ht'
  rw [ht] at hu
  cases hu
  exact hcount rfl

end

/-! ## Leases that are granted -/

namespace WorkflowRun

/-- The task the operation leases for a new attempt, if it does. -/
def grants (run : WorkflowRun) : Operation → List TaskID
  | .startTaskAttempt taskID workerID leaseDuration now =>
    match run.startTaskAttempt taskID workerID leaseDuration now with
    | .ok _ => [taskID]
    | .error _ => []
  | _ => []

/-- All leases granted in the course of a history, in order. -/
def grantedBy (run : WorkflowRun) : List Operation → List TaskID
  | [] => []
  | op :: ops => run.grants op ++ (run.apply op).grantedBy ops

end WorkflowRun

section

variable {run : WorkflowRun} {k : TaskID} {t t' : TaskRun}

/-- The lease that the operation grants on the task for its next attempt. -/
def GrantedLease (run : WorkflowRun) (op : Operation) (k : TaskID) (t t' : TaskRun) : Prop :=
  ∃ w d now, op = .startTaskAttempt k w d now ∧ t.status = .ready ∧
    t'.attemptCount = t.attemptCount + 1 ∧ t'.lease = some {
      workerID := w
      taskRunID := taskRunIDFor run.id k
      attemptID := attemptIDFor (taskRunIDFor run.id k) t'.attemptCount
      expiresAt := run.nextTimestamp now + d }

/-- An operation leaves the count of attempts alone, or grants a lease. -/
theorem apply_attemptCount (hc : Coherent run) (op : Operation)
    (ht : run.tasks.get? k = some t) (ht' : (run.apply op).tasks.get? k = some t') :
    k ∉ run.grants op ∧ t'.attemptCount = t.attemptCount ∨
      run.grants op = [k] ∧ GrantedLease run op k t t' := by
  have hother : (∀ w, ¬(op.permits run k).start w) → t'.attemptCount = t.attemptCount :=
    fun hp => (apply_evolves hc op).attemptCount hc hp ht ht'
  cases op with
  | startTaskAttempt k₀ w d now =>
    cases hstart : run.startTaskAttempt k₀ w d now with
    | error e =>
      simp only [WorkflowRun.apply, hstart, Except.map, WorkflowRun.orElse] at ht'
      rw [ht] at ht'
      cases ht'
      exact .inl ⟨by simp [WorkflowRun.grants, hstart], rfl⟩
    | ok result =>
      obtain ⟨-, -, t₀, ht₀, hready, -, hrun⟩ := startTaskAttempt_ok hstart
      simp only [WorkflowRun.apply, hstart, Except.map, WorkflowRun.orElse, hrun,
        KeyMap.get?_insert] at ht'
      have hgrants : run.grants (.startTaskAttempt k₀ w d now) = [k₀] := by
        simp only [WorkflowRun.grants, hstart]
      by_cases hk : k = k₀
      · subst hk
        rw [ht] at ht₀
        cases ht₀
        rw [if_pos rfl] at ht'
        cases ht'
        exact .inr ⟨hgrants, w, d, now, rfl, hready, rfl, rfl⟩
      · rw [if_neg hk, ht] at ht'
        cases ht'
        rw [hgrants]
        exact .inl ⟨by simpa using hk, rfl⟩
  | _ => exact .inl ⟨List.not_mem_nil, hother fun _ h => h⟩

theorem permits_start (run : WorkflowRun) (op : Operation) {w : WorkerID}
    (h : (op.permits run k).start w) : ∃ d now, op = .startTaskAttempt k w d now := by
  cases op with
  | startTaskAttempt k₀ w₀ d now =>
    obtain ⟨rfl, rfl⟩ := h
    exact ⟨d, now, rfl⟩
  | _ => exact h.elim

theorem apply_of_not_granted {w : WorkerID} {d now : Int}
    (h : k ∉ run.grants (.startTaskAttempt k w d now)) :
    run.apply (.startTaskAttempt k w d now) = run := by
  cases hstart : run.startTaskAttempt k w d now with
  | error e => simp only [WorkflowRun.apply, hstart, Except.map, WorkflowRun.orElse]
  | ok result => simp [WorkflowRun.grants, hstart] at h

theorem applyAll_get? (hc : Coherent run) (ht : run.tasks.get? k = some t)
    (ops : List Operation) : ∃ t', (run.applyAll ops).tasks.get? k = some t' := by
  induction ops generalizing run t with
  | nil => exact ⟨t, ht⟩
  | cons op ops ih =>
    obtain ⟨u, hu, -⟩ := (apply_evolves hc op).moves k t ht
    exact ih (hc.apply op) hu

/-- A history grants as many leases as it adds attempts. -/
theorem grantedBy_count (hc : Coherent run) (ops : List Operation)
    (ht : run.tasks.get? k = some t) (ht' : (run.applyAll ops).tasks.get? k = some t') :
    ((run.grantedBy ops).count k : Int) = t'.attemptCount - t.attemptCount := by
  induction ops generalizing run t with
  | nil =>
    rw [WorkflowRun.applyAll, List.foldl_nil, ht] at ht'
    cases ht'
    simp [WorkflowRun.grantedBy]
  | cons op ops ih =>
    obtain ⟨u, hu, -⟩ := (apply_evolves hc op).moves k t ht
    have hrest := ih (hc.apply op) hu ht'
    rw [WorkflowRun.grantedBy, List.count_append]
    push_cast
    rw [hrest]
    rcases apply_attemptCount hc op ht hu with ⟨hnot, hcount⟩ | ⟨hgrants, -, -, -, -, -, hcount, -⟩
    · rw [List.count_eq_zero_of_not_mem hnot]
      omega
    · rw [hgrants, List.count_singleton_self]
      omega

/-- A finished task gets no lease. -/
theorem grantedBy_of_terminal (hc : Coherent run) (ht : run.tasks.get? k = some t)
    (hterm : t.status.terminal = true) (ops : List Operation) : k ∉ run.grantedBy ops := by
  induction ops generalizing run with
  | nil => exact List.not_mem_nil
  | cons op ops ih =>
    have hnext := (apply_evolves hc op).frozen ht hterm
    rw [WorkflowRun.grantedBy, List.mem_append, not_or]
    refine ⟨?_, ih (hc.apply op) hnext⟩
    rcases apply_attemptCount hc op ht hnext with ⟨hnot, -⟩ | ⟨-, -, -, -, -, hready, -⟩
    · exact hnot
    · rw [hready] at hterm
      cases hterm

/-- An error without the mark fails the task, unless the completion is ignored. -/
theorem unmarked_error_fails (k : TaskID) (r : TaskRunID) (w : WorkerID) (a : AttemptID)
    (output : GoString) {e : TaskError} (he : e.retryable = false) (now : Int) :
    run.apply (.completeTaskAttempt k r w a output (some e) now) = run ∨
      ∃ t, (run.apply (.completeTaskAttempt k r w a output (some e) now)).tasks.get? k = some t ∧
        t.status = .failed := by
  rcases completeTaskAttempt_cases run k r w a output (some e) now with
    ⟨-, hcase⟩ | ⟨t, -, ⟨-, hcase⟩ | ⟨-, hcase⟩⟩
  · exact .inl (by simp only [WorkflowRun.apply, hcase, Except.map, WorkflowRun.orElse])
  · exact .inl (by simp only [WorkflowRun.apply, hcase, Except.map, WorkflowRun.orElse])
  · right
    simp only [WorkflowRun.apply, hcase, Except.map, WorkflowRun.orElse]
    refine ⟨_, KeyMap.get?_insert_self _ _ _, ?_⟩
    simp only [TaskRun.complete, TaskRun.retryOrFail, he, Bool.false_eq_true, false_and, if_false]

end

/-! ## New runs -/

section

variable {runID : RunID} {definition : WorkflowDefinition} {now : Int} {run : WorkflowRun}

/-- The policy the run looks up is that of the definition. -/
theorem retryPolicy_of_definition (h : newWorkflowRun runID definition now = .ok run)
    {task : TaskDefinition} (htask : task ∈ definition.tasks) :
    run.retryPolicy task.id = task.retry := by
  obtain ⟨-, hd, rfl⟩ := newWorkflowRun_ok h
  have hnodup := (WorkflowDefinition.wellFormed_of_validate hd).ids_nodup
  have hfind : ((cloneDefinition definition).tasks.find? fun t => t.id = task.id) =
      some (cloneTaskDefinition task) := by
    cases hfound : (cloneDefinition definition).tasks.find? fun t => t.id = task.id with
    | none =>
      have hnone := List.find?_eq_none.mp hfound (cloneTaskDefinition task)
        (List.mem_map.mpr ⟨task, htask, rfl⟩)
      simp [cloneTaskDefinition] at hnone
    | some found =>
      obtain ⟨task', htask', rfl⟩ := List.mem_map.mp (List.mem_of_find?_eq_some hfound)
      have hid : (cloneTaskDefinition task').id = task.id := by simpa using List.find?_some hfound
      rw [List.inj_on_of_nodup_map hnodup htask' htask hid]
  rw [WorkflowRun.retryPolicy, hfind]
  rfl

theorem effectiveMaxAttempts_pos {policy : RetryPolicy} (h : 0 ≤ policy.maxAttempts) :
    0 < policy.effectiveMaxAttempts := by
  unfold RetryPolicy.effectiveMaxAttempts
  split <;> omega

theorem newWorkflowRun_limited (h : newWorkflowRun runID definition now = .ok run) :
    RunLimited run := by
  intro k t ht
  obtain ⟨hk, rfl⟩ := (newWorkflowRun_get? h).mp ht
  obtain ⟨task, htask, rfl⟩ := List.mem_map.mp hk
  obtain ⟨-, hd, -⟩ := newWorkflowRun_ok h
  have hwell := (WorkflowDefinition.wellFormed_of_validate hd).tasks task htask
  have hpos := effectiveMaxAttempts_pos ((invalidRetryPolicyReason_iff _).mp hwell.retry).1.1
  rw [retryPolicy_of_definition h htask]
  exact ⟨hpos.le, fun _ => hpos⟩

/-- In every state a run reaches: the attempts of a task number at most what its policy
allows, and fewer while it is pending, ready or waits for a retry; they are the leases
granted so far. An operation never lowers the count, and raises it, by one, only by a
new lease. A completion with an error not marked retryable is ignored or ends the
task's attempts. -/
theorem attempts_within_policy (hnew : newWorkflowRun runID definition now = .ok run)
    (ops : List Operation) {task : TaskDefinition} (htask : task ∈ definition.tasks)
    {t : TaskRun} (ht : (run.applyAll ops).tasks.get? task.id = some t) :
    t.attemptCount ≤ task.retry.effectiveMaxAttempts ∧
    (t.status ∈ [.pending, .ready, .retryWaiting] →
      t.attemptCount < task.retry.effectiveMaxAttempts) ∧
    ((run.grantedBy ops).count task.id : Int) = t.attemptCount ∧
    (∀ op t', ((run.applyAll ops).apply op).tasks.get? task.id = some t' →
      t'.attemptCount = t.attemptCount ∨ GrantedLease (run.applyAll ops) op task.id t t') ∧
    ∀ r w a output e now', e.retryable = false →
      (run.applyAll ops).apply (.completeTaskAttempt task.id r w a output (some e) now') =
          run.applyAll ops ∨
        ∀ later, task.id ∉ ((run.applyAll ops).apply
          (.completeTaskAttempt task.id r w a output (some e) now')).grantedBy later := by
  have hc := newWorkflowRun_coherent hnew
  have hc' := hc.applyAll ops
  have hlimited := (newWorkflowRun_limited hnew).applyAll hc ops task.id t ht
  rw [retryPolicy_congr (applyAll_definition hc ops).1, retryPolicy_of_definition hnew htask]
    at hlimited
  have hfirst : run.tasks.get? task.id = some (newTaskRun runID now task.id) :=
    (newWorkflowRun_get? hnew).mpr ⟨List.mem_map.mpr ⟨task, htask, rfl⟩, rfl⟩
  refine ⟨hlimited.within, fun hs => hlimited.left ?_, ?_, fun op t' ht' => ?_,
    fun r w a output e now' he => ?_⟩
  · simp only [List.mem_cons, List.not_mem_nil, or_false] at hs
    rcases hs with hs | hs | hs <;> rw [hs] <;> rfl
  · rw [grantedBy_count hc ops hfirst ht]
    exact sub_zero _
  · exact (apply_attemptCount hc' op ht ht').imp And.right And.right
  · refine (unmarked_error_fails task.id r w a output he now').imp_right ?_
    rintro ⟨t', ht', hs⟩ later
    exact grantedBy_of_terminal (hc'.apply _) ht' (by rw [hs]; rfl) later

end

/-- The first task of the sample after its only attempt. -/
theorem sample_attempts_within_policy : ∃ run,
    newWorkflowRun (ascii "r") sampleDefinition 1 = .ok run ∧
    ∃ task ∈ sampleDefinition.tasks, ∃ t,
      (run.applyAll sampleHistory).tasks.get? task.id = some t ∧
      ((run.grantedBy sampleHistory).count task.id : Int) = t.attemptCount ∧
      t.attemptCount ≤ task.retry.effectiveMaxAttempts := by
  obtain ⟨run, hrun⟩ : ∃ run, newWorkflowRun (ascii "r") sampleDefinition 1 = .ok run := ⟨_, rfl⟩
  have htask : (⟨ascii "a", ascii "first", .nil, ascii "h", [], ⟨2, 0, 0⟩⟩ : TaskDefinition) ∈
      sampleDefinition.tasks := List.mem_cons_self
  have hc := newWorkflowRun_coherent hrun
  have hfirst := (newWorkflowRun_get? hrun).mpr ⟨List.mem_map.mpr ⟨_, htask, rfl⟩, rfl⟩
  obtain ⟨t, ht⟩ := applyAll_get? hc hfirst sampleHistory
  have hwithin := attempts_within_policy hrun sampleHistory htask ht
  exact ⟨run, hrun, _, htask, t, ht, hwithin.2.2.1, hwithin.1⟩

end ForgeFlow.Execution
