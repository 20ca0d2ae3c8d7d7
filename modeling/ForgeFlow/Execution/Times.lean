import ForgeFlow.Execution.AttemptLimits
import ForgeFlow.Execution.Deadlines

/-!
# The clock of a run

An operation stamps what it changes with the clock, or with the time of the last
update where the clock has fallen behind it. So the times a run records are ordered
whatever the clock does, and a lease that has run out by that time stays so.
-/

namespace ForgeFlow.Execution

open ForgeFlow.Base ForgeFlow.Workflow

variable {now d : Int} {w : WorkerID}

/-! ## Recorded times -/

/-- A time that is not set, or one between the creation and the last update. -/
def TimeWithin (createdAt updatedAt time : Int) : Prop :=
  time = 0 ∨ createdAt ≤ time ∧ time ≤ updatedAt

structure TaskRun.Dated (createdAt updatedAt : Int) (t : TaskRun) : Prop where
  updated : TimeWithin createdAt updatedAt t.updatedAt
  started : TimeWithin createdAt updatedAt t.startedAt
  finished : TimeWithin createdAt updatedAt t.finishedAt

/-- All times that the run records. -/
structure Dated (run : WorkflowRun) : Prop where
  ordered : run.createdAt ≤ run.updatedAt
  tasks : ∀ k t, run.tasks.get? k = some t → t.Dated run.createdAt run.updatedAt
  workers : ∀ w hb, run.workers.get? w = some hb →
    TimeWithin run.createdAt run.updatedAt hb.lastHeartbeatAt

/-- A change of the task at the given time: each of its times is kept, cleared, or that
time. -/
structure Restamped (timestamp : Int) (t t' : TaskRun) : Prop where
  updated : t'.updatedAt = timestamp
  started : t'.startedAt = t.startedAt ∨ t'.startedAt = timestamp
  finished : t'.finishedAt = t.finishedAt ∨ t'.finishedAt = 0 ∨ t'.finishedAt = timestamp

section

variable {createdAt updatedAt timestamp : Int} {t t' : TaskRun}

theorem TimeWithin.mono {time : Int} (h : TimeWithin createdAt updatedAt time)
    (hle : updatedAt ≤ timestamp) : TimeWithin createdAt timestamp time :=
  h.imp_right fun h => ⟨h.1, h.2.trans hle⟩

theorem TimeWithin.stamp (h : createdAt ≤ timestamp) : TimeWithin createdAt timestamp timestamp :=
  .inr ⟨h, le_refl _⟩

theorem TaskRun.Dated.mono (h : t.Dated createdAt updatedAt) (hle : updatedAt ≤ timestamp) :
    t.Dated createdAt timestamp :=
  ⟨h.updated.mono hle, h.started.mono hle, h.finished.mono hle⟩

theorem Restamped.dated (hr : Restamped timestamp t t') (h : t.Dated createdAt updatedAt)
    (hcreated : createdAt ≤ timestamp) (hle : updatedAt ≤ timestamp) :
    t'.Dated createdAt timestamp := by
  have h := h.mono hle
  refine ⟨?_, ?_, ?_⟩
  · rw [hr.updated]
    exact .stamp hcreated
  · rcases hr.started with he | he
    · rw [he]
      exact h.started
    · rw [he]
      exact .stamp hcreated
  · rcases hr.finished with he | he | he
    · rw [he]
      exact h.finished
    · exact .inl he
    · rw [he]
      exact .stamp hcreated

theorem AttemptEnded.restamped (h : AttemptEnded timestamp t t') : Restamped timestamp t t' :=
  ⟨h.updated, .inl h.started, .inr (.inr h.finished)⟩

theorem renew_restamped (t : TaskRun) (w : WorkerID) (d timestamp : Int) :
    t.renew w d timestamp = t ∨ Restamped timestamp t (t.renew w d timestamp) := by
  rcases renew_cases t w d timestamp with he | ⟨l, -, -, -, -, he⟩
  · exact .inl he
  · rw [he]
    exact .inr ⟨rfl, .inl rfl, .inl rfl⟩

theorem cancel_restamped (t : TaskRun) (cause : Option TaskError) (timestamp : Int) :
    t.cancel cause timestamp = t ∨
      t.status.unfinished = true ∧ Restamped timestamp t (t.cancel cause timestamp) := by
  rcases cancel_cases t cause timestamp with ⟨-, he⟩ | ⟨hu, he⟩
  · exact .inl he
  · rw [he]
    exact .inr ⟨hu, rfl, .inl rfl, .inr (.inr rfl)⟩

end

section

variable {run run' : WorkflowRun}

/-- A run whose changes carry the time of the update. -/
theorem Dated.of_pointwise (h : Dated run) (hc : run'.createdAt = run.createdAt)
    (hu : run.updatedAt ≤ run'.updatedAt) (f : TaskID → TaskRun → TaskRun)
    (hget : ∀ k, run'.tasks.get? k = (run.tasks.get? k).map (f k))
    (hf : ∀ k t, run.tasks.get? k = some t → f k t = t ∨ Restamped run'.updatedAt t (f k t))
    (hw : run'.workers = run.workers ∨
      ∃ w, run'.workers = run.workers.insert w ⟨w, run'.updatedAt⟩) : Dated run' := by
  have hordered : run.createdAt ≤ run'.updatedAt := h.ordered.trans hu
  refine ⟨hc ▸ hordered, fun k t' ht' => ?_, fun w hb hget' => ?_⟩
  · rw [hget] at ht'
    obtain ⟨t, ht, rfl⟩ := Option.map_eq_some_iff.mp ht'
    rw [hc]
    rcases hf k t ht with he | hr
    · rw [he]
      exact (h.tasks k t ht).mono hu
    · exact hr.dated (h.tasks k t ht) hordered hu
  · rw [hc]
    rcases hw with hw | ⟨w', hw⟩
    · exact (h.workers w hb (hw ▸ hget')).mono hu
    · rw [hw, KeyMap.get?_insert] at hget'
      split at hget'
      · cases hget'
        exact .stamp hordered
      · exact (h.workers w hb hget').mono hu

theorem Dated.of_insert (h : Dated run) {k : TaskID} {t t' : TaskRun}
    (hc : run'.createdAt = run.createdAt) (hu : run.updatedAt ≤ run'.updatedAt)
    (ht : run.tasks.get? k = some t) (htasks : run'.tasks = run.tasks.insert k t')
    (hr : Restamped run'.updatedAt t t')
    (hw : run'.workers = run.workers ∨
      ∃ w, run'.workers = run.workers.insert w ⟨w, run'.updatedAt⟩) : Dated run' := by
  refine h.of_pointwise hc hu (fun k' u => if k' = k then t' else u) (fun k' => ?_)
    (fun k' u hget => ?_) hw
  · rw [htasks, KeyMap.get?_insert]
    by_cases hk : k' = k
    · subst hk
      simp [ht]
    · simp [hk]
  · by_cases hk : k' = k
    · subst hk
      rw [ht] at hget
      cases hget
      simpa using Or.inr hr
    · simp [hk]

theorem Dated.of_tasks_eq (h : Dated run) (hc : run'.createdAt = run.createdAt)
    (hu : run.updatedAt ≤ run'.updatedAt) (ht : run'.tasks = run.tasks)
    (hw : run'.workers = run.workers) : Dated run' :=
  h.of_pointwise hc hu (fun _ t => t) (fun k => by simp [ht]) (fun _ _ _ => .inl rfl) (.inl hw)

theorem Dated.transitionWorkflow (h : Dated run) {target : WorkflowRunStatus}
    (hok : run.transitionWorkflow target now = .ok run') : Dated run' := by
  obtain ⟨-, rfl⟩ := transitionWorkflow_ok hok
  exact h.of_tasks_eq rfl (le_nextTimestamp run now) rfl rfl

theorem Dated.transitionTask (h : Dated run) {k : TaskID}
    (hok : run.transitionTask k .ready [] none now = .ok run') : Dated run' := by
  unfold WorkflowRun.transitionTask at hok
  split at hok
  · cases hok
  · rename_i t ht
    split at hok
    · cases hok
    · cases hok
      exact h.of_insert rfl (le_nextTimestamp run now) ht rfl ⟨rfl, .inl rfl, .inl rfl⟩ (.inl rfl)

theorem Dated.markReadyLoop : ∀ (candidates : List TaskDefinition) {run : WorkflowRun}
    (now : Nat → Int), Dated run → Dated (markReadyLoop run candidates now).1
  | [], _, _, h => h
  | task :: rest, run, now, h => by
    unfold Execution.markReadyLoop
    split
    · exact h
    · split
      · exact Dated.markReadyLoop rest now h
      · split
        · exact h
        · rename_i hok
          exact Dated.markReadyLoop rest (fun i => now (i + 1)) (h.transitionTask hok)

theorem Dated.markNewReady (h : Dated run) (definition : WorkflowDefinition)
    (completed : KeyMap TaskID Unit) (now : Nat → Int) :
    Dated (markNewReady run definition completed now).1 := by
  unfold Execution.markNewReady
  split
  · exact h
  · exact Dated.markReadyLoop _ now h

theorem Dated.startTaskAttempt (h : Dated run) {k : TaskID}
    {a : AttemptID} (hok : run.startTaskAttempt k w d now = .ok (run', a)) : Dated run' := by
  obtain ⟨-, -, t, ht, -, -, rfl⟩ := startTaskAttempt_ok hok
  exact h.of_insert rfl (le_nextTimestamp run now) ht rfl ⟨rfl, .inr rfl, .inr (.inl rfl)⟩
    (.inr ⟨w, rfl⟩)

theorem Dated.completeTaskAttempt (h : Dated run) {k : TaskID} {r : TaskRunID}
    {a : AttemptID} {output : GoString} {taskErr : Option TaskError}
    {outcome : CompletionOutcome}
    (hok : run.completeTaskAttempt k r w a output taskErr now = .ok (run', outcome)) :
    Dated run' := by
  rcases completeTaskAttempt_cases run k r w a output taskErr now with
    ⟨-, he⟩ | ⟨t, ht, ⟨-, he⟩ | ⟨-, he⟩⟩
  · rw [he] at hok
    cases hok
  · rw [he] at hok
    cases hok
    exact h
  · rw [he] at hok
    cases hok
    exact h.of_insert rfl (le_nextTimestamp run now) ht rfl (complete_ended t _ _ _ _).restamped
      (.inl rfl)

theorem Dated.recordWorkerHeartbeat (h : Dated run)
    (hok : run.recordWorkerHeartbeat w d now = .ok run') : Dated run' := by
  obtain ⟨-, -, rfl⟩ := recordWorkerHeartbeat_ok hok
  exact h.of_pointwise rfl (le_nextTimestamp run now) _ (fun k => KeyMap.get?_map _ _ _)
    (fun k t _ => renew_restamped t w d _) (.inr ⟨w, rfl⟩)

theorem Dated.recoverExpiredLeases (h : Dated run) (hc : Coherent run) (now : Int) :
    Dated (run.recoverExpiredLeases now).1 := by
  by_cases hnil : (run.recoverExpiredLeases now).2 = []
  · rw [recoverExpiredLeases_idle hnil]
    exact h
  · have hupdated : (run.recoverExpiredLeases now).1.updatedAt = run.nextTimestamp now :=
      if_neg hnil
    refine h.of_pointwise rfl (by rw [hupdated]; exact le_nextTimestamp run now) _
      (fun k => KeyMap.get?_map _ _ _) (fun k t ht => ?_) (.inl rfl)
    rw [hupdated]
    split
    · exact .inr (recover_ended (hc.tasks k t ht) _ _).restamped
    · exact .inl rfl

theorem Dated.promoteDueRetries (h : Dated run) (now : Int) :
    Dated (run.promoteDueRetries now).1 := by
  by_cases hnil : (run.promoteDueRetries now).2 = []
  · rw [promoteDueRetries_idle hnil]
    exact h
  · have hupdated : (run.promoteDueRetries now).1.updatedAt = run.nextTimestamp now :=
      if_neg hnil
    refine h.of_pointwise rfl (by rw [hupdated]; exact le_nextTimestamp run now) _
      (fun k => KeyMap.get?_map _ _ _) (fun k t ht => ?_) (.inl rfl)
    rw [hupdated]
    split
    · exact .inr ⟨rfl, .inl rfl, .inl rfl⟩
    · exact .inl rfl

theorem Dated.cancelUnfinished (h : Dated run) (cause : Option TaskError) (now : Int) :
    Dated (run.cancelUnfinished cause now) := by
  by_cases hany : (run.tasks.values.any fun task => task.status.unfinished) = true
  · have hupdated : (run.cancelUnfinished cause now).updatedAt = run.nextTimestamp now :=
      if_pos hany
    refine h.of_pointwise rfl (by rw [hupdated]; exact le_nextTimestamp run now) _
      (fun k => KeyMap.get?_map _ _ _) (fun k t ht => ?_) (.inl rfl)
    rw [hupdated]
    exact (cancel_restamped t cause _).imp_right And.right
  · have hupdated : (run.cancelUnfinished cause now).updatedAt = run.updatedAt := if_neg hany
    refine h.of_pointwise rfl hupdated.ge _ (fun k => KeyMap.get?_map _ _ _) (fun k t ht => ?_)
      (.inl rfl)
    refine (cancel_restamped t cause _).imp_right fun hu => absurd ?_ hany
    exact List.any_eq_true.mpr ⟨t, (KeyMap.mem_values_iff _ _).mpr ⟨k, ht⟩, hu.1⟩

theorem Dated.stopRun (h : Dated run) (target : WorkflowRunStatus) (cause : Option TaskError)
    (now now' : Int) : Dated (stopRun run target cause now now').1 := by
  have hcancel := h.cancelUnfinished cause now
  unfold Execution.stopRun
  dsimp only
  split
  · exact hcancel
  · rename_i hok
    exact hcancel.transitionWorkflow hok

theorem Dated.apply (h : Dated run) (hc : Coherent run) (op : Operation) :
    Dated (run.apply op) := by
  cases op with
  | startWorkflow now => exact orElse_induction h fun r hr => h.transitionWorkflow hr
  | markNewReady now => exact h.markNewReady _ _ now
  | startTaskAttempt k w d now =>
    refine orElse_induction h fun r hr => ?_
    obtain ⟨a, ha⟩ := map_fst_ok hr
    exact h.startTaskAttempt ha
  | completeTaskAttempt k r w a output taskErr now =>
    refine orElse_induction h fun r hr => ?_
    obtain ⟨o, ho⟩ := map_fst_ok hr
    exact h.completeTaskAttempt ho
  | recordWorkerHeartbeat w d now =>
    exact orElse_induction h fun r hr => h.recordWorkerHeartbeat hr
  | recoverExpiredLeases now => exact h.recoverExpiredLeases hc now
  | promoteDueRetries now => exact h.promoteDueRetries now
  | stop target cause now now' => exact h.stopRun target cause now now'
  | succeed now => exact orElse_induction h fun r hr => h.transitionWorkflow hr
  | persisted version => exact h.of_tasks_eq rfl (le_refl _) rfl rfl
  | restore =>
    refine orElse_induction h fun r hr => ?_
    rw [restore_snapshot_eq hc hc.definition hr]
    exact h

theorem Dated.applyAll (h : Dated run) (hc : Coherent run) (ops : List Operation) :
    Dated (run.applyAll ops) := by
  induction ops generalizing run with
  | nil => exact h
  | cons op ops ih => exact ih (h.apply hc op) (hc.apply op)

theorem applyAll_createdAt (hc : Coherent run) (ops : List Operation) :
    (run.applyAll ops).createdAt = run.createdAt := by
  induction ops generalizing run with
  | nil => rfl
  | cons op ops ih => exact (ih (hc.apply op)).trans (apply_evolves hc op).created

theorem newWorkflowRun_dated {runID : RunID} {d : WorkflowDefinition}
    (h : newWorkflowRun runID d now = .ok run) : Dated run := by
  have hget := @newWorkflowRun_get? runID d now run h
  obtain ⟨-, -, rfl⟩ := newWorkflowRun_ok h
  refine ⟨le_refl _, fun k t ht => ?_, nofun⟩
  obtain ⟨-, rfl⟩ := hget.mp ht
  exact ⟨.stamp (le_refl _), .inl rfl, .inl rfl⟩

end

/-! ## Leases -/

section

variable {run run' : WorkflowRun} {k : TaskID} {t t' : TaskRun} {l l' : TaskLease}

theorem nextTimestamp_eq_max (run : WorkflowRun) (now : Int) :
    run.nextTimestamp now = max now run.updatedAt := by
  unfold WorkflowRun.nextTimestamp
  omega

/-- A leased task is recovered when its lease has run out, and left alone before. -/
theorem recovered_iff (hc : Coherent run) (ht : run.tasks.get? k = some t)
    (hl : t.lease = some l) (now : Int) :
    ((∃ r ∈ (run.recoverExpiredLeases now).2, r.taskID = k) ↔
      l.expiresAt ≤ run.nextTimestamp now) ∧
    (∀ t', (run.recoverExpiredLeases now).1.tasks.get? k = some t' →
      if l.expiresAt ≤ run.nextTimestamp now then t'.lease = none else t' = t) := by
  have hexpired : t.leaseExpired (run.nextTimestamp now) = true ↔
      l.expiresAt ≤ run.nextTimestamp now := by
    simp [TaskRun.leaseExpired, hl, ((hc.tasks k t ht).lease l hl).1]
  constructor
  · rw [← hexpired]
    constructor
    · rintro ⟨r, hr, rfl⟩
      obtain ⟨⟨k', t'⟩, hmem, hif⟩ := List.mem_filterMap.mp hr
      split at hif
      · rename_i hx
        cases hif
        have ht' := (KeyMap.mem_entries_iff _ _ _).mp hmem
        have hk : (t'.recover run.id k' (run.retryPolicy k') (run.nextTimestamp now)).2.taskID =
            k' := rfl
        rw [hk, ht'] at ht
        cases ht
        exact hx
      · cases hif
    · intro hx
      refine ⟨(t.recover run.id k (run.retryPolicy k) (run.nextTimestamp now)).2, ?_, rfl⟩
      refine List.mem_filterMap.mpr ⟨(k, t), (KeyMap.mem_entries_iff _ _ _).mpr ht, ?_⟩
      rw [if_pos hx]
  · intro t' ht'
    have hmap : (run.recoverExpiredLeases now).1.tasks.get? k = (run.tasks.get? k).map fun t =>
        if t.leaseExpired (run.nextTimestamp now) then
          (t.recover run.id k (run.retryPolicy k) (run.nextTimestamp now)).1
        else t := KeyMap.get?_map _ _ _
    rw [ht', ht, Option.map_some] at hmap
    have heq := Option.some.inj hmap
    by_cases hx : l.expiresAt ≤ run.nextTimestamp now
    · rw [if_pos hx, heq, if_pos (hexpired.mpr hx)]
      exact (recover_ended (hc.tasks k t ht) _ _).lease
    · rw [if_neg hx, heq, if_neg (hexpired.not.mpr hx)]

/-- While the lease is held no operation leases the task to another worker, or for
another attempt. -/
theorem apply_holder (hc : Coherent run) (op : Operation) (ht : run.tasks.get? k = some t)
    (hl : t.lease = some l) (ht' : (run.apply op).tasks.get? k = some t')
    (hl' : t'.lease = some l') : l'.workerID = l.workerID ∧ l'.attemptID = l.attemptID := by
  have hi := hc.tasks k t ht
  have hi' := (hc.apply op).tasks k t' ht'
  obtain ⟨hrunning, hattempt, -⟩ := hi.lease l hl
  obtain ⟨hrunning', hattempt', -⟩ := hi'.lease l' hl'
  rcases apply_attemptCount hc op ht ht' with ⟨hnot, hcount⟩ | ⟨-, -, -, -, -, hready, -⟩
  · constructor
    · have hw' : t'.leasedTo = some l'.workerID := by rw [TaskRun.leasedTo, hl']; rfl
      rcases (apply_evolves hc op).leasedTo hc ht' hw' with ⟨u, hu, hw⟩ | hstart
      · rw [ht] at hu
        cases hu
        rw [TaskRun.leasedTo, hl] at hw
        exact (Option.some.inj hw).symm
      · -- a start that was permitted but granted nothing has left the run as it was
        obtain ⟨d, now, rfl⟩ := permits_start run op hstart
        have hsame := apply_of_not_granted hnot
        rw [hsame, ht] at ht'
        cases ht'
        rw [hl] at hl'
        cases hl'
        rfl
    · rw [hattempt, hattempt', hi'.attempt_ne_nil (hi'.running hrunning'),
        hi.attempt_ne_nil (hi.running hrunning), hcount, (apply_evolves hc op).id]
  · rw [hrunning] at hready
    cases hready

theorem renew_expired {timestamp : Int} (hl : t.lease = some l)
    (hexpired : l.expiresAt ≤ timestamp) : t.renew w d timestamp = t := by
  unfold TaskRun.renew
  rw [hl]
  exact if_neg fun h => absurd h.2.2 (not_lt.mpr hexpired)

/-- No number of heartbeats touches a task whose lease has run out. -/
theorem heartbeats_expired (hc : Coherent run) (ht : run.tasks.get? k = some t)
    (hl : t.lease = some l) (hexpired : l.expiresAt ≤ run.updatedAt)
    (beats : List (WorkerID × Int × Int)) :
    (run.applyAll (beats.map fun b => .recordWorkerHeartbeat b.1 b.2.1 b.2.2)).tasks.get? k =
      some t := by
  induction beats generalizing run with
  | nil => exact ht
  | cons b beats ih =>
    obtain ⟨w, d, now⟩ := b
    have hstep := @apply_evolves run hc (.recordWorkerHeartbeat w d now)
    refine ih (hc.apply _) ?_ (hexpired.trans hstep.updated)
    refine orElse_induction (P := fun r => r.tasks.get? k = some t) ht fun r hr => ?_
    obtain ⟨-, -, rfl⟩ := recordWorkerHeartbeat_ok hr
    refine (KeyMap.get?_map _ _ _).trans ?_
    rw [ht, Option.map_some, renew_expired hl (hexpired.trans (le_nextTimestamp run now))]

end

/-- In every state a run reaches, whatever the clock shows: the update time does not go
back, and every recorded time lies between the creation and the last update; a leased
task is recovered exactly when the later of clock and last update has reached the
expiry of its lease; no operation leases it to another worker as long as the lease is
held; and once the last update has reached the expiry, no heartbeat changes it. -/
theorem times_ordered_and_leases_exclusive {runID : RunID} {definition : WorkflowDefinition}
    {run : WorkflowRun} (hnew : newWorkflowRun runID definition now = .ok run)
    (ops : List Operation) :
    (∀ op, (run.applyAll ops).updatedAt ≤ ((run.applyAll ops).apply op).updatedAt) ∧
    (run.applyAll ops).createdAt = now ∧
    (∀ k t, (run.applyAll ops).tasks.get? k = some t →
      ∀ time ∈ [t.updatedAt, t.startedAt, t.finishedAt], time ≠ 0 →
        now ≤ time ∧ time ≤ (run.applyAll ops).updatedAt) ∧
    (∀ w hb, (run.applyAll ops).workers.get? w = some hb → hb.lastHeartbeatAt ≠ 0 →
      now ≤ hb.lastHeartbeatAt ∧ hb.lastHeartbeatAt ≤ (run.applyAll ops).updatedAt) ∧
    ∀ k t l, (run.applyAll ops).tasks.get? k = some t → t.lease = some l →
      (∀ clock, ((∃ r ∈ ((run.applyAll ops).recoverExpiredLeases clock).2, r.taskID = k) ↔
          l.expiresAt ≤ max clock (run.applyAll ops).updatedAt) ∧
        ∀ t', ((run.applyAll ops).recoverExpiredLeases clock).1.tasks.get? k = some t' →
          if l.expiresAt ≤ max clock (run.applyAll ops).updatedAt then t'.lease = none
          else t' = t) ∧
      (∀ op t' l', ((run.applyAll ops).apply op).tasks.get? k = some t' → t'.lease = some l' →
        l'.workerID = l.workerID ∧ l'.attemptID = l.attemptID) ∧
      (l.expiresAt ≤ (run.applyAll ops).updatedAt → ∀ beats : List (WorkerID × Int × Int),
        ((run.applyAll ops).applyAll (beats.map fun b =>
          .recordWorkerHeartbeat b.1 b.2.1 b.2.2)).tasks.get? k = some t) := by
  have hc := newWorkflowRun_coherent hnew
  have hc' := hc.applyAll ops
  have hcreated : (run.applyAll ops).createdAt = now := by
    rw [applyAll_createdAt hc]
    obtain ⟨-, -, rfl⟩ := newWorkflowRun_ok hnew
    rfl
  have hdated := (newWorkflowRun_dated hnew).applyAll hc ops
  have hwithin : ∀ {time},
      TimeWithin (run.applyAll ops).createdAt (run.applyAll ops).updatedAt time → time ≠ 0 →
        now ≤ time ∧ time ≤ (run.applyAll ops).updatedAt := by
    intro time h hne
    exact hcreated ▸ h.resolve_left hne
  refine ⟨fun op => (apply_evolves hc' op).updated, hcreated, fun k t ht time htime => ?_,
    fun w hb hget => hwithin (hdated.workers w hb hget), fun k t l ht hl => ⟨fun clock => ?_,
      fun op t' l' => apply_holder hc' op ht hl, heartbeats_expired hc' ht hl⟩⟩
  · have htimes := hdated.tasks k t ht
    simp only [List.mem_cons, List.not_mem_nil, or_false] at htime
    rcases htime with rfl | rfl | rfl
    · exact hwithin htimes.updated
    · exact hwithin htimes.started
    · exact hwithin htimes.finished
  · rw [← nextTimestamp_eq_max]
    exact recovered_iff hc' ht hl clock

theorem sample_times_ordered : ∃ run,
    newWorkflowRun (ascii "r") sampleDefinition 1 = .ok run ∧
    (run.applyAll sampleHistory).createdAt = 1 ∧
    ∀ k t, (run.applyAll sampleHistory).tasks.get? k = some t →
      ∀ time ∈ [t.updatedAt, t.startedAt, t.finishedAt], time ≠ 0 →
        1 ≤ time ∧ time ≤ (run.applyAll sampleHistory).updatedAt := by
  obtain ⟨run, hrun⟩ : ∃ run, newWorkflowRun (ascii "r") sampleDefinition 1 = .ok run := ⟨_, rfl⟩
  have htimes := times_ordered_and_leases_exclusive hrun sampleHistory
  exact ⟨run, hrun, htimes.2.1, htimes.2.2.1⟩

end ForgeFlow.Execution
