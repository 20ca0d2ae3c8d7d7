import ForgeFlow.Execution.Validity

/-!
# The next deadline

`recoverExpiredLeases`, `promoteDueRetries` and `nextReliabilityDeadline` each decide
on their own which tasks are due. They agree: before the deadline both sweeps find
nothing, from the deadline on one of them finds a task.
-/

namespace ForgeFlow.Execution

open ForgeFlow.Base ForgeFlow.Workflow

/-! ## What the sweeps find -/

section

variable {run : WorkflowRun} {now : Int}

theorem recoveries_eq_nil_iff : (run.recoverExpiredLeases now).2 = [] ↔
    ∀ t ∈ run.sortedTasks, t.leaseExpired (run.nextTimestamp now) = false := by
  simp only [WorkflowRun.recoverExpiredLeases, List.filterMap_eq_nil_iff, WorkflowRun.sortedTasks,
    KeyMap.values, List.forall_mem_map]
  refine forall₂_congr fun e _ => ?_
  cases e.2.leaseExpired (run.nextTimestamp now) <;> simp

theorem promoted_eq_nil_iff : (run.promoteDueRetries now).2 = [] ↔
    ∀ t ∈ run.sortedTasks, t.retryDue (run.nextTimestamp now) = false := by
  simp only [WorkflowRun.promoteDueRetries, List.filterMap_eq_nil_iff, WorkflowRun.sortedTasks,
    KeyMap.values, List.forall_mem_map]
  refine forall₂_congr fun e _ => ?_
  cases e.2.retryDue (run.nextTimestamp now) <;> simp

theorem retryOrFail_cases (t : TaskRun) (policy : RetryPolicy) (retryable : Bool)
    (timestamp : Int) :
    (t.retryOrFail policy retryable timestamp).2 = .retryScheduled ∧
        ((t.retryOrFail policy retryable timestamp).1.status = .ready ∨
          (t.retryOrFail policy retryable timestamp).1.status = .retryWaiting) ∨
      (t.retryOrFail policy retryable timestamp).2 = .failed ∧
        (t.retryOrFail policy retryable timestamp).1.status = .failed := by
  unfold TaskRun.retryOrFail
  split
  · simp only
    split
    · exact .inl ⟨rfl, .inl rfl⟩
    · exact .inl ⟨rfl, .inr rfl⟩
  · exact .inr ⟨rfl, rfl⟩

/-- A sweep that recovers nothing changes nothing. -/
theorem recoverExpiredLeases_idle (h : (run.recoverExpiredLeases now).2 = []) :
    (run.recoverExpiredLeases now).1 = run := by
  have hlive := recoveries_eq_nil_iff.mp h
  have htasks : (run.recoverExpiredLeases now).1.tasks = run.tasks := by
    simp only [WorkflowRun.recoverExpiredLeases]
    refine KeyMap.map_eq_self fun k t ht => if_neg ?_
    rw [hlive t (mem_sortedTasks ht)]
    nofun
  exact WorkflowRun.ext rfl rfl rfl rfl htasks rfl rfl (if_pos h)

theorem promoteDueRetries_idle (h : (run.promoteDueRetries now).2 = []) :
    (run.promoteDueRetries now).1 = run := by
  have hwait := promoted_eq_nil_iff.mp h
  have htasks : (run.promoteDueRetries now).1.tasks = run.tasks := by
    simp only [WorkflowRun.promoteDueRetries]
    refine KeyMap.map_eq_self fun k t ht => if_neg ?_
    rw [hwait t (mem_sortedTasks ht)]
    nofun
  exact WorkflowRun.ext rfl rfl rfl rfl htasks rfl rfl (if_pos h)

theorem recover_not_running (t : TaskRun) (runID : RunID) (k : TaskID) (policy : RetryPolicy)
    (timestamp : Int) : (t.recover runID k policy timestamp).1.status ≠ .running := by
  intro hrunning
  simp only [TaskRun.recover] at hrunning
  rcases retryOrFail_cases _ policy true timestamp with ⟨-, hs | hs⟩ | ⟨-, hs⟩
  all_goals
    rw [hs] at hrunning
    cases hrunning

/-- A sweep that recovers a task takes it out of running. -/
theorem recoverExpiredLeases_moves (h : (run.recoverExpiredLeases now).2 ≠ []) :
    (run.recoverExpiredLeases now).1.tasks ≠ run.tasks := by
  rw [ne_eq, recoveries_eq_nil_iff] at h
  push Not at h
  obtain ⟨t, ht, hexpired⟩ := h
  obtain ⟨k, hk⟩ := (KeyMap.mem_values_iff _ _).mp ht
  have hexpired : t.leaseExpired (run.nextTimestamp now) = true := by simpa using hexpired
  have hget : (run.recoverExpiredLeases now).1.tasks.get? k =
      some (t.recover run.id k (run.retryPolicy k) (run.nextTimestamp now)).1 := by
    refine (KeyMap.get?_map _ _ _).trans ?_
    rw [hk, Option.map_some, if_pos hexpired]
  intro heq
  rw [heq, hk] at hget
  refine recover_not_running t run.id k (run.retryPolicy k) (run.nextTimestamp now) ?_
  rw [← Option.some.inj hget]
  exact leaseExpired_running hexpired

theorem promoteDueRetries_moves (h : (run.promoteDueRetries now).2 ≠ []) :
    (run.promoteDueRetries now).1.tasks ≠ run.tasks := by
  rw [ne_eq, promoted_eq_nil_iff] at h
  push Not at h
  obtain ⟨t, ht, hdue⟩ := h
  obtain ⟨k, hk⟩ := (KeyMap.mem_values_iff _ _).mp ht
  have hdue : t.retryDue (run.nextTimestamp now) = true := by simpa using hdue
  have hget : (run.promoteDueRetries now).1.tasks.get? k =
      some (t.promote (run.nextTimestamp now)) := by
    refine (KeyMap.get?_map _ _ _).trans ?_
    rw [hk, Option.map_some, if_pos hdue]
  intro heq
  rw [heq, hk] at hget
  simp only [TaskRun.retryDue, Bool.and_eq_true, decide_eq_true_eq] at hdue
  have hstatus := congrArg TaskRun.status (Option.some.inj hget)
  rw [hdue.1] at hstatus
  cases hstatus

end

/-! ## The scan -/

/-- When the task is due: a running task without a lease as soon as possible, which is
the time the run was updated last. -/
def TaskRun.dueAt (updatedAt : Int) (task : TaskRun) : Option Int :=
  match task.status, task.lease with
  | .running, none => some updatedAt
  | .running, some lease => some lease.expiresAt
  | .retryWaiting, _ => some task.nextAttemptAt
  | _, _ => none

/-- The deadlines that are recorded are not the zero time. -/
def TaskRun.Armed (task : TaskRun) : Prop :=
  (∀ lease, task.lease = some lease → lease.expiresAt ≠ 0) ∧
    (task.status = .retryWaiting → task.nextAttemptAt ≠ 0)

theorem dueAt_eq_none_iff {updatedAt : Int} {t : TaskRun} :
    t.dueAt updatedAt = none ↔ t.status ≠ .running ∧ t.status ≠ .retryWaiting := by
  unfold TaskRun.dueAt
  cases t.status <;> cases t.lease <;> simp

/-- A task is due exactly when one of the sweeps takes it up. -/
theorem due_iff {updatedAt timestamp : Int} {t : TaskRun} (h : updatedAt ≤ timestamp) :
    (t.leaseExpired timestamp = true ∨ t.retryDue timestamp = true) ↔
      ∃ due, t.dueAt updatedAt = some due ∧ due ≤ timestamp := by
  unfold TaskRun.dueAt TaskRun.leaseExpired TaskRun.retryDue
  cases t.status <;> cases t.lease <;> simp [h]

/-- What the scan of the tasks makes of the deadline before them: it is the least of all
deadlines, unless a task is overdue. -/
structure Scanned (updatedAt deadline : Int) (tasks : List TaskRun) (result : Int × Bool) :
    Prop where
  none : result.2 = false ↔ deadline = 0 ∧ ∀ t ∈ tasks, t.dueAt updatedAt = none
  attained : result.2 = true → deadline ≠ 0 ∧ result.1 = deadline ∨
    ∃ t ∈ tasks, t.dueAt updatedAt = some result.1
  least : result.2 = true → result.1 = updatedAt ∨ (deadline ≠ 0 → result.1 ≤ deadline) ∧
    ∀ t ∈ tasks, ∀ due, t.dueAt updatedAt = some due → result.1 ≤ due

section

variable {updatedAt deadline : Int} {t : TaskRun} {rest : List TaskRun} {result : Int × Bool}

theorem Scanned.overdue (h : t.dueAt updatedAt = some updatedAt) :
    Scanned updatedAt deadline (t :: rest) (updatedAt, true) where
  none := by simp [h]
  attained _ := .inr ⟨t, List.mem_cons_self, h⟩
  least _ := .inl rfl

theorem Scanned.skip (ht : t.dueAt updatedAt = Option.none)
    (h : Scanned updatedAt deadline rest result) :
    Scanned updatedAt deadline (t :: rest) result where
  none := by simpa [ht] using h.none
  attained hb := by simpa [ht] using h.attained hb
  least hb := by simpa [ht] using h.least hb

theorem Scanned.take {due : Int} (ht : t.dueAt updatedAt = some due) (hdue : due ≠ 0)
    (h : Scanned updatedAt (if deadline = 0 ∨ due < deadline then due else deadline) rest result) :
    Scanned updatedAt deadline (t :: rest) result := by
  have hne : (if deadline = 0 ∨ due < deadline then due else deadline) ≠ 0 := by
    split
    · exact hdue
    · omega
  have hle : (if deadline = 0 ∨ due < deadline then due else deadline) ≤ due ∧
      (deadline ≠ 0 → (if deadline = 0 ∨ due < deadline then due else deadline) ≤ deadline) := by
    split <;> omega
  refine ⟨?_, fun hb => ?_, fun hb => ?_⟩
  · refine ⟨fun hb => absurd (h.none.mp hb).1 hne, fun hnone => ?_⟩
    rw [hnone.2 t List.mem_cons_self] at ht
    cases ht
  · rcases h.attained hb with ⟨-, heq⟩ | ⟨t', ht', hdue'⟩
    · split at heq
      · exact .inr ⟨t, List.mem_cons_self, heq ▸ ht⟩
      · exact .inl ⟨by omega, heq⟩
    · exact .inr ⟨t', List.mem_cons_of_mem _ ht', hdue'⟩
  · rcases h.least hb with heq | ⟨hdeadline, hrest⟩
    · exact .inl heq
    · have hmin := hdeadline hne
      refine .inr ⟨fun hd => hmin.trans (hle.2 hd), fun t' ht' due' hdue' => ?_⟩
      rcases List.mem_cons.mp ht' with rfl | hmem
      · rw [ht] at hdue'
        cases hdue'
        exact hmin.trans hle.1
      · exact hrest t' hmem due' hdue'

end

theorem deadlineScan_scanned (updatedAt : Int) : ∀ (tasks : List TaskRun) (deadline : Int),
    (∀ t ∈ tasks, t.Armed) →
    Scanned updatedAt deadline tasks (WorkflowRun.deadlineScan updatedAt tasks deadline)
  | [], deadline, _ => by
    refine ⟨?_, fun hb => .inl ⟨?_, rfl⟩, fun _ => .inr ⟨fun _ => le_refl _, nofun⟩⟩
    · simp [WorkflowRun.deadlineScan]
    · simpa [WorkflowRun.deadlineScan] using hb
  | t :: rest, deadline, harmed => by
    have hrest := fun deadline => deadlineScan_scanned updatedAt rest deadline fun t' ht' =>
      harmed t' (List.mem_cons_of_mem _ ht')
    obtain ⟨hlease, hretry⟩ := harmed t List.mem_cons_self
    rw [WorkflowRun.deadlineScan]
    split
    · rename_i hs hl
      exact .overdue (by rw [TaskRun.dueAt, hs, hl])
    · rename_i lease hs hl
      exact .take (by rw [TaskRun.dueAt, hs, hl]) (hlease lease hl) (hrest _)
    · rename_i hs
      exact .take (by rw [TaskRun.dueAt, hs]) (hretry hs) (hrest _)
    · rename_i hwaiting hno hleased
      refine .skip (dueAt_eq_none_iff.mpr ⟨fun hs => ?_, hwaiting⟩) (hrest deadline)
      cases hl : t.lease with
      | none => exact hno hs hl
      | some lease => exact hleased lease hs hl

theorem ValidSnapshot.armed {run : WorkflowRun} (h : ValidSnapshot run.snapshot) :
    ∀ t ∈ run.sortedTasks, t.Armed := fun t ht =>
  ⟨fun lease hl => ((h.taskRuns t ht).lease lease hl).expires, (h.taskRuns t ht).retryDeadline⟩

/-- In every run with a valid snapshot: no deadline is reported exactly when no task is
running or waits for a retry; before the deadline neither sweep changes or reports
anything, and from the deadline on one of them moves a task. -/
theorem nextReliabilityDeadline_exact {run : WorkflowRun}
    (hvalid : run.snapshot.validate = .ok ()) :
    (run.nextReliabilityDeadline.2 = false ↔
      ∀ t ∈ run.sortedTasks, t.status ≠ .running ∧ t.status ≠ .retryWaiting) ∧
    (run.nextReliabilityDeadline.2 = true → ∀ now,
      (run.nextTimestamp now < run.nextReliabilityDeadline.1 →
        run.recoverExpiredLeases now = (run, []) ∧ run.promoteDueRetries now = (run, [])) ∧
      (run.nextReliabilityDeadline.1 ≤ run.nextTimestamp now →
        (run.recoverExpiredLeases now).2 ≠ [] ∧
            (run.recoverExpiredLeases now).1.tasks ≠ run.tasks ∨
          (run.promoteDueRetries now).2 ≠ [] ∧
            (run.promoteDueRetries now).1.tasks ≠ run.tasks)) := by
  have hscan : Scanned run.updatedAt 0 run.sortedTasks run.nextReliabilityDeadline :=
    deadlineScan_scanned run.updatedAt run.sortedTasks 0
      ((WorkflowRunSnapshot.validate_ok_iff _).mp hvalid).armed
  refine ⟨?_, fun hb now => ⟨fun hbefore => ?_, fun hafter => ?_⟩⟩
  · rw [hscan.none]
    simp only [true_and, dueAt_eq_none_iff]
  · have hstamp := le_nextTimestamp run now
    have hquiet : ∀ t ∈ run.sortedTasks, ¬(t.leaseExpired (run.nextTimestamp now) = true ∨
        t.retryDue (run.nextTimestamp now) = true) := by
      intro t ht hdue
      obtain ⟨due, hat, hle⟩ := (due_iff hstamp).mp hdue
      rcases hscan.least hb with heq | ⟨-, hleast⟩
      · omega
      · have := hleast t ht due hat
        omega
    have hrecovered : (run.recoverExpiredLeases now).2 = [] := recoveries_eq_nil_iff.mpr
      fun t ht => by simpa using fun h => hquiet t ht (.inl h)
    have hpromoted : (run.promoteDueRetries now).2 = [] := promoted_eq_nil_iff.mpr
      fun t ht => by simpa using fun h => hquiet t ht (.inr h)
    exact ⟨Prod.ext (recoverExpiredLeases_idle hrecovered) hrecovered,
      Prod.ext (promoteDueRetries_idle hpromoted) hpromoted⟩
  · obtain ⟨hne, -⟩ | ⟨t, ht, hat⟩ := hscan.attained hb
    · exact absurd rfl hne
    · rcases (due_iff (le_nextTimestamp run now)).mpr ⟨_, hat, hafter⟩ with hexpired | hdue
      · have hne : (run.recoverExpiredLeases now).2 ≠ [] := fun hnil => by
          rw [recoveries_eq_nil_iff.mp hnil t ht] at hexpired
          cases hexpired
        exact .inl ⟨hne, recoverExpiredLeases_moves hne⟩
      · have hne : (run.promoteDueRetries now).2 ≠ [] := fun hnil => by
          rw [promoted_eq_nil_iff.mp hnil t ht] at hdue
          cases hdue
        exact .inr ⟨hne, promoteDueRetries_moves hne⟩

/-- The first task is leased until 13. -/
def leasedRun : WorkflowRun where
  id := ascii "r"
  definition := sampleDefinition
  version := 1
  status := .running
  tasks := KeyMap.ofList [
    (ascii "a", (newTaskRun (ascii "r") 1 (ascii "a")).startAttempt (ascii "r") (ascii "a")
      (ascii "w") 10 3),
    (ascii "b", newTaskRun (ascii "r") 1 (ascii "b"))]
  workers := KeyMap.ofList [(ascii "w", ⟨ascii "w", 3⟩)]
  createdAt := 1
  updatedAt := 3

theorem leasedRun_deadline : leasedRun.snapshot.validate = .ok () ∧
    leasedRun.nextReliabilityDeadline = (13, true) ∧
    leasedRun.recoverExpiredLeases 12 = (leasedRun, []) ∧
    ((leasedRun.recoverExpiredLeases 13).2 ≠ [] ∨ (leasedRun.promoteDueRetries 13).2 ≠ []) := by
  have hvalid : leasedRun.snapshot.validate = .ok () := by decide +kernel
  have hdeadline : leasedRun.nextReliabilityDeadline = (13, true) := by decide +kernel
  have hexact := (nextReliabilityDeadline_exact hvalid).2
  rw [hdeadline] at hexact
  exact ⟨hvalid, hdeadline, ((hexact rfl 12).1 (by decide)).1,
    ((hexact rfl 13).2 (by decide)).imp And.left And.left⟩

end ForgeFlow.Execution
