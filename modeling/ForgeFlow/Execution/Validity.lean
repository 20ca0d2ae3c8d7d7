import ForgeFlow.Execution.History

/-!
# Runs whose snapshots are valid

The conditions of snapshot validation as an invariant of the run: what concerns
each task and worker (`RunSound`), that no worker holds two leases (`OneLease`),
and what the status of the run says about its tasks.
-/

namespace ForgeFlow.Execution

open ForgeFlow.Base ForgeFlow.Workflow Relation

variable {k : TaskID} {target : WorkflowRunStatus} {now now' : Int} {d : WorkflowDefinition}
  {cause : Option TaskError}

section

variable {runID : RunID} {since createdAt timestamp : Int} {policy : RetryPolicy}
  {taskID : TaskID} {p : Permits} {t t' : TaskRun}

theorem TaskRunValid.ended (h : TaskRunValid runID createdAt t)
    (hi : Identified runID taskID t) (hr : t.status = .running)
    (he : AttemptEnded timestamp t t') (hpos : 0 < timestamp) (hc : createdAt ≤ timestamp) :
    TaskRunValid runID createdAt t' := by
  have hcount := (h.running hr).1
  have hattempt : t'.currentAttemptID ≠ [] := by
    rw [he.attempt, hi.attempt_ne_nil hcount]
    exact attemptIDFor_ne_nil _ _
  have hstatus : t'.status.valid = true ∧ t'.status ≠ .running := by
    rcases he.status with ⟨hs | hs | hs, -⟩ | ⟨hs, -⟩ <;> rw [hs] <;> decide
  refine ⟨he.task ▸ h.id, by rw [he.taskRun, he.task]; exact h.taskRun, hstatus.1,
    by rw [he.attempts]; exact h.attempts, by rw [he.attempts, he.attempt]; exact h.noAttempt,
    by rw [he.attempt, he.attempts, he.task]; exact h.attemptID, ?_,
    fun hr' => absurd hr' hstatus.2, fun _ => ⟨by rw [he.attempts]; exact hcount, ?_⟩,
    fun _ => ?_, fun hw => ?_, fun _ => ⟨by rw [he.attempts]; exact hcount, hattempt⟩,
    fun hw => ?_, fun l hl => ?_⟩
  · rw [he.updated]
    exact ⟨by omega, hc⟩
  · rw [he.finished]
    omega
  · rw [he.finished]
    omega
  · rcases he.status with ⟨hs, -⟩ | ⟨-, hlt⟩
    · rw [hw] at hs
      exact absurd hs (by decide)
    · omega
  · rcases he.status with ⟨-, hz⟩ | ⟨hs, -⟩
    · exact hz
    · exact absurd hs hw
  · rw [he.lease] at hl
    cases hl

theorem TaskRunValid.move (h : TaskRunValid runID createdAt t) (hi : Identified runID taskID t)
    (hrun : validIdentifier runID = true) (hpos : 0 < since) (hc : createdAt ≤ since)
    (hm : TaskMove runID since policy taskID p t t') : TaskRunValid runID createdAt t' := by
  obtain rfl := hi.task
  cases hm with
  | markReady timestamp hs hr hp =>
    have hlease : t.lease = none := by
      cases hl : t.lease with
      | none => rfl
      | some l => exact absurd (hr.symm.trans (hi.lease l hl).1) (by decide)
    refine ⟨h.id, h.taskRun, rfl, h.attempts, h.noAttempt, h.attemptID, ⟨?_, ?_⟩, nofun, ?_,
      nofun, nofun, nofun, fun _ => h.noDeadline (by rw [hr]; decide), fun l hl => ?_⟩
    · show timestamp ≠ 0
      omega
    · exact hc.trans hs
    · rintro (hx | hx) <;> cases hx
    · rw [show (t.enter runID t.taskID .ready [] none timestamp).lease = t.lease from rfl, hlease] at hl
      cases hl
  | start w d timestamp hs hr hw hd hp =>
    have hn := hi.attempts
    refine ⟨h.id, .inr rfl, rfl, by show 0 ≤ t.attemptCount + 1; omega,
      fun hz => ?_, .inr rfl, ⟨?_, ?_⟩, fun _ => ⟨?_, ?_⟩, ?_, nofun, nofun,
      nofun, fun _ => rfl, fun l hl => ?_⟩
    · have : t.attemptCount + 1 = 0 := hz
      omega
    · show timestamp ≠ 0
      omega
    · exact hc.trans hs
    · show t.attemptCount + 1 ≠ 0
      omega
    · show timestamp ≠ 0
      omega
    · rintro (hx | hx) <;> cases hx
    · cases hl
      refine ⟨rfl, hw, rfl, validIdentifier_attemptIDFor hrun h.id _, rfl, rfl, ?_⟩
      show timestamp + d ≠ 0
      omega
  | renew w d timestamp hs hd =>
    rcases renew_cases t w d timestamp with he | ⟨l, hl, hr, -, -, he⟩
    · rw [he]
      exact h
    · rw [he]
      have hlv := h.lease l hl
      refine ⟨h.id, h.taskRun, h.status, h.attempts, h.noAttempt, h.attemptID, ⟨?_, ?_⟩,
        h.running, h.completed, h.canceled, h.retryDeadline, h.retryAttempt, h.noDeadline,
        fun l' hl' => ?_⟩
      · show timestamp ≠ 0
        omega
      · exact hc.trans hs
      · cases hl'
        refine ⟨hlv.running, hlv.worker, hlv.taskRun, hlv.attempt, hlv.leaseTaskRun,
          hlv.leaseAttempt, ?_⟩
        show timestamp + d ≠ 0
        omega
  | complete output taskErr timestamp hs hr =>
    exact h.ended hi hr (complete_ended t policy _ _ _) (by omega) (by omega)
  | recover timestamp hs hr =>
    exact h.ended hi hr (recover_ended hi policy timestamp) (by omega) (by omega)
  | promote timestamp hs hr =>
    have hlease : t.lease = none := by
      cases hl : t.lease with
      | none => rfl
      | some l => exact absurd (hr.symm.trans (hi.lease l hl).1) (by decide)
    refine ⟨h.id, h.taskRun, rfl, h.attempts, h.noAttempt, h.attemptID, ⟨?_, ?_⟩, nofun, ?_,
      nofun, nofun, nofun, fun _ => rfl, fun l hl => ?_⟩
    · show timestamp ≠ 0
      omega
    · exact hc.trans hs
    · rintro (hx | hx) <;> cases hx
    · rw [show (t.promote timestamp).lease = t.lease from rfl, hlease] at hl
      cases hl
  | cancel cause timestamp hs hp =>
    rcases cancel_cases t cause timestamp with ⟨-, he⟩ | ⟨-, he⟩
    · rw [he]
      exact h
    · rw [he]
      refine ⟨h.id, h.taskRun, rfl, h.attempts, h.noAttempt, h.attemptID, ⟨?_, ?_⟩, nofun, ?_,
        fun _ => ?_, nofun, nofun, fun _ => rfl, nofun⟩
      · show timestamp ≠ 0
        omega
      · exact hc.trans hs
      · rintro (hx | hx) <;> cases hx
      · show timestamp ≠ 0
        omega

end

/-! ## The invariant -/

structure RunSound (run : WorkflowRun) : Prop where
  coherent : Coherent run
  id : validIdentifier run.id = true
  definition : run.definition.validate = .ok ()
  keys : ∀ k, (run.tasks.get? k).isSome = true ↔ k ∈ run.definition.tasks.map TaskDefinition.id
  status : run.status.valid = true
  created : 0 < run.createdAt
  updated : run.createdAt ≤ run.updatedAt
  tasks : ∀ k t, run.tasks.get? k = some t → TaskRunValid run.id run.createdAt t
  workers : ∀ w hb, run.workers.get? w = some hb → WorkerValid run.createdAt hb
  leased : ∀ k t w, run.tasks.get? k = some t → t.leasedTo = some w →
    (run.workers.get? w).isSome = true

/-- No worker holds the leases of two tasks. -/
def OneLease (run : WorkflowRun) : Prop :=
  ∀ k k' t t' w, run.tasks.get? k = some t → run.tasks.get? k' = some t' →
    t.leasedTo = some w → t'.leasedTo = some w → k = k'

/-- The worker holds no lease. -/
def NoLease (run : WorkflowRun) (w : WorkerID) : Prop :=
  ∀ k t, run.tasks.get? k = some t → t.leasedTo ≠ some w

theorem noLease_iff (run : WorkflowRun) (w : WorkerID) :
    NoLease run w ↔ ∀ t ∈ run.sortedTasks, t.leasedTo ≠ some w := by
  constructor
  · intro h t ht
    obtain ⟨k, hk⟩ := (KeyMap.mem_values_iff _ _).mp ht
    exact h k t hk
  · exact fun h k t ht => h t ((KeyMap.mem_values_iff _ _).mpr ⟨k, ht⟩)

def StatusAgrees (run : WorkflowRun) : Prop := AggregateStatus run.status run.sortedTasks

section

variable {permits : TaskID → Permits} {run run' : WorkflowRun}

theorem Evolves.leasedTo (he : Evolves permits run run') (hc : Coherent run)
    {t' : TaskRun} {w : WorkerID} (ht' : run'.tasks.get? k = some t')
    (hw : t'.leasedTo = some w) :
    (∃ t, run.tasks.get? k = some t ∧ t.leasedTo = some w) ∨ (permits k).start w := by
  obtain ⟨t, ht, hback⟩ := he.carries hc (k := k)
    (P := fun u => u.leasedTo = some w →
      (∃ t, run.tasks.get? k = some t ∧ t.leasedTo = some w) ∨ (permits k).start w)
    (fun u u' hi hm hback hw => (hm.leasedTo hi hw).elim hback .inr) ht'
  exact hback (fun hw => .inl ⟨t, ht, hw⟩) hw

theorem RunSound.evolves (h : RunSound run) (he : Evolves permits run run')
    (hw : WorkersFiled run run')
    (hstart : ∀ k w, (permits k).start w → (run'.workers.get? w).isSome = true)
    (hs : run'.status.valid = true) : RunSound run' := by
  have hkept : ∀ w, (run.workers.get? w).isSome = true → (run'.workers.get? w).isSome = true := by
    intro w hsome
    rcases hw with hw | ⟨w', timestamp, -, -, hw⟩
    · rw [hw]
      exact hsome
    · rw [hw, KeyMap.get?_insert]
      split
      · rfl
      · exact hsome
  have hpos : 0 < run.updatedAt := lt_of_lt_of_le h.created h.updated
  refine ⟨h.coherent.of_evolves he hw, he.id ▸ h.id, he.definition ▸ h.definition, fun k => ?_, hs,
    he.created ▸ h.created, ?_, fun k t' ht' => ?_, fun w hb hget => ?_, fun k t' w ht' hl => ?_⟩
  · rw [he.definition, ← h.keys k]
    cases ht : run.tasks.get? k with
    | none => rw [he.absent k ht]
    | some t =>
      obtain ⟨t', ht', -⟩ := he.moves k t ht
      simp [ht']
  · rw [he.created]
    exact h.updated.trans he.updated
  · obtain ⟨t, ht, hvalid⟩ := he.carries h.coherent (P := TaskRunValid run.id run.createdAt)
      (fun u u' hi hm hu => hu.move hi h.id hpos h.updated hm) ht'
    rw [he.id, he.created]
    exact hvalid (h.tasks k t ht)
  · rw [he.created]
    rcases hw with hw | ⟨w', timestamp, hvalid, hts, hw⟩
    · exact h.workers w hb (hw ▸ hget)
    · rw [hw, KeyMap.get?_insert] at hget
      split at hget
      · cases hget
        have hle := h.updated
        exact ⟨hvalid, by show timestamp ≠ 0; omega, by show run.createdAt ≤ timestamp; omega⟩
      · exact h.workers w hb hget
  · rcases he.leasedTo h.coherent ht' hl with ⟨t, ht, hw'⟩ | hst
    · exact hkept w (h.leased k t w ht hw')
    · exact hstart k w hst

theorem OneLease.evolves (h : OneLease run) (hc : Coherent run) (he : Evolves permits run run')
    (hone : ∀ k k' w, (permits k).start w → (permits k').start w → k = k')
    (hfree : ∀ k w, (permits k).start w → NoLease run w) : OneLease run' := by
  intro k k' t t' w ht ht' hl hl'
  rcases he.leasedTo hc ht hl with ⟨u, hu, hwu⟩ | hs
  · rcases he.leasedTo hc ht' hl' with ⟨u', hu', hwu'⟩ | hs'
    · exact h k k' u u' w hu hu' hwu hwu'
    · exact absurd hwu (hfree k' w hs' k u hu)
  · rcases he.leasedTo hc ht' hl' with ⟨u', hu', hwu'⟩ | hs'
    · exact absurd hwu' (hfree k w hs k' u' hu')
    · exact hone k k' w hs hs'

/-- A sound run with one lease per worker and an agreeing status has a valid snapshot. -/
theorem RunSound.snapshot_valid (h : RunSound run) (hone : OneLease run)
    (hagree : StatusAgrees run) : ValidSnapshot run.snapshot := by
  have hwf := WorkflowDefinition.wellFormed_of_validate h.definition
  have hmem : ∀ t ∈ run.sortedTasks, run.tasks.get? t.taskID = some t := by
    intro t ht
    obtain ⟨k, hk⟩ := (KeyMap.mem_values_iff _ _).mp ht
    rw [(h.coherent.tasks k t hk).task]
    exact hk
  have hworkers : run.sortedWorkers.map WorkerHeartbeat.workerID = run.workers.keys := by
    rw [WorkflowRun.sortedWorkers, KeyMap.values, List.map_map, KeyMap.keys]
    apply List.map_congr_left
    rintro ⟨w, hb⟩ hin
    exact h.coherent.workers w hb ((KeyMap.mem_entries_iff _ _ _).mp hin)
  have hids : run.sortedTasks.map TaskRun.taskID = run.tasks.keys := by
    rw [WorkflowRun.sortedTasks, KeyMap.values, List.map_map, KeyMap.keys]
    apply List.map_congr_left
    rintro ⟨k, t⟩ hin
    exact (h.coherent.tasks k t ((KeyMap.mem_entries_iff _ _ _).mp hin)).task
  have hpos := h.created
  have hle := h.updated
  refine ⟨h.id, hwf.id_valid, h.status, by show run.createdAt ≠ 0; omega,
    ⟨by show run.updatedAt ≠ 0; omega, hle⟩, ?_, fun t ht => h.tasks _ t (hmem t ht), ?_, ?_,
    fun hb hin => ?_, ?_, ?_, hagree⟩
  · intro hnil
    obtain ⟨task, rest, htasks⟩ := List.exists_cons_of_ne_nil hwf.tasks_ne
    have hsome := (h.keys task.id).mpr (by rw [htasks]; simp)
    have hin := (KeyMap.mem_keys_iff _ _).mpr hsome
    have hnil' : run.sortedTasks = [] := hnil
    rw [← hids, hnil'] at hin
    cases hin
  · show (run.sortedTasks.map TaskRun.taskID).Nodup
    rw [hids]
    exact run.tasks.keys_nodup
  · show (run.sortedTasks.filterMap TaskRun.leasedTo).Nodup
    have hnd : run.sortedTasks.Nodup :=
      List.Nodup.of_map TaskRun.taskID (by rw [hids]; exact run.tasks.keys_nodup)
    refine List.Pairwise.filterMap _ ?_ (hnd.imp_of_mem fun {t t'} ht ht' hne => ?_) (S := (· ≠ ·))
      (R := fun t t' => ∀ w, t.leasedTo = some w → t'.leasedTo ≠ some w)
    · intro t t' hR w hw w' hw' heq
      subst heq
      exact hR w hw hw'
    · intro w hw hw'
      have hk := hone _ _ t t' w (hmem t ht) (hmem t' ht') hw hw'
      have hget := hmem t ht
      rw [hk, hmem t' ht'] at hget
      exact hne (Option.some.inj hget).symm
  · obtain ⟨w, hw⟩ := (KeyMap.mem_values_iff _ _).mp hin
    exact h.workers w hb hw
  · show (run.sortedWorkers.map WorkerHeartbeat.workerID).Nodup
    rw [hworkers]
    exact run.workers.keys_nodup
  · intro w hw
    obtain ⟨t, ht, hlt⟩ := List.mem_filterMap.mp hw
    show w ∈ run.sortedWorkers.map WorkerHeartbeat.workerID
    rw [hworkers, KeyMap.mem_keys_iff]
    exact h.leased _ t w (hmem t ht) hlt

end

/-! ## The engine's operations keep it -/

/-- What the callers of an operation see to before they call it. -/
def Operation.Allowed (run : WorkflowRun) : Operation → Prop
  | .markNewReady _ => run.status ≠ .pending
  | .startTaskAttempt _ workerID _ _ => NoLease run workerID
  | .stop .failed _ _ _ =>
    run.status ≠ .pending ∧ ∃ k t, run.tasks.get? k = some t ∧ t.status ≠ .succeeded
  | .stop .canceled _ _ _ => ∀ k t, run.tasks.get? k = some t → t.status ≠ .failed
  | .stop .. => False
  | .succeed _ => ∀ k t, run.tasks.get? k = some t → t.status = .succeeded
  | _ => True

structure ValidRun (run : WorkflowRun) : Prop where
  sound : RunSound run
  oneLease : OneLease run
  agrees : StatusAgrees run

section

variable {permits : TaskID → Permits} {run run' : WorkflowRun}

theorem terminal_of_finished {status : TaskRunStatus} (hv : status.valid = true)
    (hu : status.unfinished = false) : status.terminal = true := by
  cases status <;> simp [TaskRunStatus.valid, TaskRunStatus.unfinished, TaskRunStatus.terminal] at *

theorem RunSound.get?_of_mem (h : RunSound run) {t : TaskRun} (ht : t ∈ run.sortedTasks) :
    run.tasks.get? t.taskID = some t := by
  obtain ⟨k, hk⟩ := (KeyMap.mem_values_iff _ _).mp ht
  rw [(h.coherent.tasks k t hk).task]
  exact hk

theorem mem_sortedTasks {t : TaskRun} (h : run.tasks.get? k = some t) :
    t ∈ run.sortedTasks := (KeyMap.mem_values_iff _ _).mpr ⟨k, h⟩

/-- Once every task is finished, nothing changes. -/
theorem Evolves.sortedTasks_finished (he : Evolves permits run run') (h : RunSound run)
    (hfin : ∀ t ∈ run.sortedTasks, t.status.unfinished = false) (t : TaskRun) :
    t ∈ run'.sortedTasks ↔ t ∈ run.sortedTasks := by
  have hterm : ∀ k u, run.tasks.get? k = some u → u.status.terminal = true := fun k u hu =>
    terminal_of_finished (h.tasks k u hu).status (hfin u (mem_sortedTasks hu))
  constructor
  · intro ht
    obtain ⟨k, hk⟩ := (KeyMap.mem_values_iff _ _).mp ht
    obtain ⟨u, hu, -⟩ := he.origin hk
    have := he.frozen hu (hterm k u hu)
    rw [hk] at this
    cases this
    exact mem_sortedTasks hu
  · intro ht
    have hget := h.get?_of_mem ht
    exact mem_sortedTasks (he.frozen hget (hterm _ t hget))

theorem Evolves.all_pending (he : Evolves permits run run')
    (hp : ∀ k, ¬(permits k).ready ∧ ¬(permits k).cancel)
    (h : ∀ t ∈ run.sortedTasks, t.status = .pending) :
    ∀ t ∈ run'.sortedTasks, t.status = .pending := by
  intro t' ht'
  obtain ⟨k, hk⟩ := (KeyMap.mem_values_iff _ _).mp ht'
  obtain ⟨t, ht, hmoves⟩ := he.origin hk
  clear ht' hk
  induction hmoves with
  | refl => exact h t (mem_sortedTasks ht)
  | tail _ hm ih =>
    rw [hm.pending_frozen ih (hp k).1 (hp k).2]
    exact ih

/-- A change that leaves the status of the run alone, and that does not touch
the tasks of a pending run, leaves them in agreement. -/
theorem StatusAgrees.evolves (hagree : StatusAgrees run) (h : RunSound run)
    (he : Evolves permits run run') (hs : run'.status = run.status)
    (hp : run.status = .pending → ∀ k, ¬(permits k).ready ∧ ¬(permits k).cancel) :
    StatusAgrees run' := by
  unfold StatusAgrees at hagree ⊢
  rw [hs]
  cases hst : run.status with
  | pending =>
    rw [hst] at hagree
    exact he.all_pending (hp hst) hagree
  | running => trivial
  | succeeded =>
    rw [hst] at hagree
    intro t ht
    refine hagree t ((he.sortedTasks_finished h (fun u hu => ?_) t).mp ht)
    rw [hagree u hu]
    rfl
  | failed =>
    rw [hst] at hagree
    have hsame := he.sortedTasks_finished h hagree.1
    obtain ⟨u, hu, hus⟩ := hagree.2
    exact ⟨fun t ht => hagree.1 t ((hsame t).mp ht), u, (hsame u).mpr hu, hus⟩
  | canceled =>
    rw [hst] at hagree
    intro t ht
    exact hagree t ((he.sortedTasks_finished h (fun u hu => (hagree u hu).1) t).mp ht)
  | other text => trivial

/-- An operation that neither readies, starts nor cancels tasks. -/
theorem ValidRun.evolves (h : ValidRun run) (he : Evolves permits run run')
    (hw : WorkersFiled run run') (hs : run'.status = run.status)
    (hstart : ∀ k w, ¬(permits k).start w)
    (hp : run.status = .pending → ∀ k, ¬(permits k).ready ∧ ¬(permits k).cancel) :
    ValidRun run' where
  sound := h.sound.evolves he hw (fun k w hst => absurd hst (hstart k w)) (hs ▸ h.sound.status)
  oneLease := h.oneLease.evolves h.sound.coherent he
    (fun k _ w hst _ => absurd hst (hstart k w)) (fun k w hst => absurd hst (hstart k w))
  agrees := h.agrees.evolves h.sound he hs hp

theorem ValidRun.transitionWorkflow (h : ValidRun run)
    (hok : run.transitionWorkflow target now = .ok run') (hv : target.valid = true)
    (hagree : AggregateStatus target run.sortedTasks) : ValidRun run' := by
  have he : Evolves (fun _ => {}) run run' := transitionWorkflow_evolves hok
  obtain ⟨-, rfl⟩ := transitionWorkflow_ok hok
  exact ⟨h.sound.evolves he (.inl rfl) (fun _ _ hst => hst.elim) hv,
    h.oneLease.evolves h.sound.coherent he (fun _ _ _ hst => hst.elim) (fun _ _ hst => hst.elim),
    hagree⟩

theorem ValidRun.startTaskAttempt (h : ValidRun run) {w : WorkerID} {d : Int}
    {a : AttemptID} (hok : run.startTaskAttempt k w d now = .ok (run', a))
    (hfree : NoLease run w) : ValidRun run' := by
  have he : Evolves (fun k' => { start := fun w' => k' = k ∧ w' = w }) run run' :=
    startTaskAttempt_evolves hok ⟨rfl, rfl⟩
  obtain ⟨hw, -, t, -, -, -, rfl⟩ := startTaskAttempt_ok hok
  refine ⟨h.sound.evolves he (.inr ⟨w, _, hw, le_nextTimestamp run now, rfl⟩) ?_ h.sound.status,
    h.oneLease.evolves h.sound.coherent he ?_ ?_, h.agrees.evolves h.sound he rfl ?_⟩
  · rintro k' w' ⟨-, rfl⟩
    simp
  · rintro k₁ k₂ w' ⟨rfl, -⟩ ⟨rfl, -⟩
    rfl
  · rintro k' w' ⟨-, rfl⟩
    exact hfree
  · exact fun _ _ => ⟨fun hf => hf, fun hf => hf⟩

/-- Cancelling what is unfinished leaves only finished tasks. -/
theorem cancelUnfinished_task (run : WorkflowRun) (cause : Option TaskError) (now : Int)
    {t' : TaskRun} (h : (run.cancelUnfinished cause now).tasks.get? k = some t') :
    ∃ t, run.tasks.get? k = some t ∧ t'.status.unfinished = false ∧
      (t'.status = t.status ∨ t'.status = .canceled) := by
  have hget : (run.cancelUnfinished cause now).tasks.get? k =
      (run.tasks.get? k).map fun t => t.cancel cause (run.nextTimestamp now) :=
    KeyMap.get?_map _ _ _
  rw [hget] at h
  obtain ⟨t, ht, rfl⟩ := Option.map_eq_some_iff.mp h
  refine ⟨t, ht, ?_⟩
  rcases cancel_cases t cause (run.nextTimestamp now) with ⟨hu, he⟩ | ⟨-, he⟩
  · rw [he]
    exact ⟨hu, .inl rfl⟩
  · rw [he]
    exact ⟨rfl, .inr rfl⟩

theorem stopRun_ok (hl : legalWorkflowTransition run.status target = true) :
    stopRun run target cause now now' =
      ({ run.cancelUnfinished cause now with
        status := target
        updatedAt := (run.cancelUnfinished cause now).nextTimestamp now' }, .ok ()) := by
  have hst : (run.cancelUnfinished cause now).status = run.status := rfl
  simp [stopRun, WorkflowRun.transitionWorkflow, hst, hl]

theorem stopRun_illegal (hl : legalWorkflowTransition run.status target = false) :
    (stopRun run target cause now now').1 = run.cancelUnfinished cause now := by
  have hst : (run.cancelUnfinished cause now).status = run.status := rfl
  simp [stopRun, WorkflowRun.transitionWorkflow, hst, hl]

theorem stopRun_stopped {run' : WorkflowRun}
    (h : stopRun run target cause now now' = (run', .ok ())) :
    run'.status = target ∧ run'.version = run.version ∧ ∀ k, run'.tasks.get? k =
      (run.tasks.get? k).map fun t => t.cancel cause (run.nextTimestamp now) := by
  cases hl : legalWorkflowTransition run.status target with
  | true =>
    rw [stopRun_ok hl] at h
    obtain ⟨rfl, -⟩ := Prod.mk.inj h
    exact ⟨rfl, rfl, fun k => KeyMap.get?_map _ _ _⟩
  | false =>
    have hst : (run.cancelUnfinished cause now).status = run.status := rfl
    simp [stopRun, WorkflowRun.transitionWorkflow, hst, hl] at h

/-- Stopping a run by failure or cancellation, under the conditions its callers
establish. -/
theorem ValidRun.stopRun (h : ValidRun run)
    (hallowed : (Operation.stop target cause now now').Allowed run) :
    ValidRun (Execution.stopRun run target cause now now').1 := by
  have he : Evolves (fun _ => { cancel := True }) run
      (Execution.stopRun run target cause now now').1 :=
    stopRun_evolves run target cause now now' fun _ => trivial
  have hworkers := stopRun_workers run target cause now now'
  have htarget : target = .failed ∨ target = .canceled := by
    cases target <;> first | exact hallowed.elim | simp
  cases hl : legalWorkflowTransition run.status target with
  | false =>
    -- a pending run can be canceled and is never failed, so this run had ended or runs
    refine h.evolves he (.inl hworkers) (by rw [stopRun_illegal hl]; rfl)
      (fun _ _ hst => hst) (fun hpend => ?_)
    rcases htarget with rfl | rfl
    · exact absurd hpend hallowed.1
    · rw [hpend] at hl
      cases hl
  | true =>
    rw [stopRun_ok hl] at he hworkers ⊢
    refine ⟨h.sound.evolves he (.inl hworkers) (fun _ _ hst => hst.elim) ?_,
      h.oneLease.evolves h.sound.coherent he (fun _ _ _ hst => hst.elim)
        (fun _ _ hst => hst.elim), ?_⟩
    · rcases htarget with rfl | rfl <;> rfl
    · have hfin : ∀ t' ∈ (run.cancelUnfinished cause now).sortedTasks, ∃ k t,
          run.tasks.get? k = some t ∧ t'.status.unfinished = false ∧
            (t'.status = t.status ∨ t'.status = .canceled) := by
        intro t' ht'
        obtain ⟨k, hk⟩ := (KeyMap.mem_values_iff _ _).mp ht'
        exact ⟨k, cancelUnfinished_task run cause now hk⟩
      rcases htarget with rfl | rfl
      · refine ⟨fun t' ht' => ?_, ?_⟩
        · obtain ⟨-, -, -, hu, -⟩ := hfin t' ht'
          exact hu
        · obtain ⟨-, k, t, ht, hns⟩ := hallowed
          obtain ⟨t', ht', -⟩ := he.moves k t ht
          have hmem := mem_sortedTasks ht'
          refine ⟨t', hmem, ?_⟩
          obtain ⟨u, hu, hun, hcase⟩ := cancelUnfinished_task run cause now ht'
          rw [ht] at hu
          cases hu
          rcases hcase with hcase | hcase
          · have hterm := terminal_of_finished (h.sound.tasks k t ht).status (hcase ▸ hun)
            rw [hcase]
            cases hst : t.status <;> simp [hst, TaskRunStatus.terminal] at hterm hns ⊢
          · exact .inr hcase
      · intro t' ht'
        obtain ⟨k, t, ht, hu, hcase⟩ := hfin t' ht'
        refine ⟨hu, ?_⟩
        rcases hcase with hcase | hcase
        · rw [hcase]
          exact hallowed k t ht
        · rw [hcase]
          decide

end

theorem ValidRun.apply {run : WorkflowRun} (h : ValidRun run) (op : Operation)
    (hallowed : op.Allowed run) : ValidRun (run.apply op) := by
  have hc := h.sound.coherent
  have he := apply_evolves hc op
  have hw := apply_workersFiled hc op
  -- the operations that neither ready, start nor cancel tasks nor end the run
  have hplain : (run.apply op).status = run.status → op.permits run = (fun _ => {}) →
      ValidRun (run.apply op) := by
    intro hs hp
    rw [hp] at he
    exact h.evolves he hw hs (fun _ _ hst => hst) (fun _ _ => ⟨fun hf => hf, fun hf => hf⟩)
  cases op with
  | startWorkflow now =>
    exact orElse_induction h fun r hr => h.transitionWorkflow hr rfl trivial
  | markNewReady now =>
    exact h.evolves he hw (markNewReady_frame _ _ _ _).2.1 (fun _ _ hst => hst)
      (fun hpend => absurd hpend hallowed)
  | startTaskAttempt k w d now =>
    refine orElse_induction h fun r hr => ?_
    obtain ⟨a, ha⟩ := map_fst_ok hr
    exact h.startTaskAttempt ha hallowed
  | completeTaskAttempt k r w a output taskErr now =>
    refine hplain (orElse_induction (P := fun r => r.status = run.status) rfl fun r' hr => ?_) rfl
    obtain ⟨o, ho⟩ := map_fst_ok hr
    rcases completeTaskAttempt_cases run k r w a output taskErr now with
      ⟨-, heq⟩ | ⟨t, -, ⟨-, heq⟩ | ⟨-, heq⟩⟩ <;> rw [heq] at ho <;> cases ho <;> rfl
  | recordWorkerHeartbeat w d now =>
    refine hplain (orElse_induction (P := fun r => r.status = run.status) rfl fun r hr => ?_) rfl
    obtain ⟨-, -, rfl⟩ := recordWorkerHeartbeat_ok hr
    rfl
  | recoverExpiredLeases now => exact hplain rfl rfl
  | promoteDueRetries now => exact hplain rfl rfl
  | stop target cause now now' => exact h.stopRun hallowed
  | succeed now =>
    refine orElse_induction h fun r hr => h.transitionWorkflow hr rfl fun t ht => ?_
    exact hallowed _ t (h.sound.get?_of_mem ht)
  | persisted version => exact hplain rfl rfl
  | restore =>
    refine hplain (orElse_induction (P := fun r => r.status = run.status) rfl fun r hr => ?_) rfl
    rw [restore_snapshot_eq hc hc.definition hr]

/-- Every operation of the list is called when its callers allow it. -/
def AllAllowed : WorkflowRun → List Operation → Prop
  | _, [] => True
  | run, op :: ops => op.Allowed run ∧ AllAllowed (run.apply op) ops

theorem ValidRun.applyAll {run : WorkflowRun} (h : ValidRun run) (ops : List Operation)
    (hallowed : AllAllowed run ops) : ValidRun (run.applyAll ops) := by
  induction ops generalizing run with
  | nil => exact h
  | cons op ops ih => exact ih (h.apply op hallowed.1) hallowed.2

theorem newWorkflowRun_valid {runID : RunID}
    {run : WorkflowRun} (hnow : 0 < now) (h : newWorkflowRun runID d now = .ok run) :
    ValidRun run := by
  have hget := @newWorkflowRun_get? runID d now run h
  have hc := newWorkflowRun_coherent h
  obtain ⟨hid, hd, rfl⟩ := newWorkflowRun_ok h
  have hwf := WorkflowDefinition.wellFormed_of_validate hd
  refine ⟨⟨hc, hid, (validate_clone d).mpr hd, fun k => ?_, rfl, hnow, le_refl _,
    fun k t ht => ?_, nofun, fun k t w ht hl => ?_⟩, fun k k' t t' w ht ht' hl hl' => ?_,
    fun t ht => ?_⟩
  · rw [Option.isSome_iff_exists]
    show (∃ t, _) ↔ k ∈ (cloneDefinition d).tasks.map TaskDefinition.id
    rw [cloneDefinition_ids]
    exact ⟨fun ⟨t, ht⟩ => (hget.mp ht).1, fun hk => ⟨_, hget.mpr ⟨hk, rfl⟩⟩⟩
  · obtain ⟨hk, rfl⟩ := hget.mp ht
    obtain ⟨task, htask, rfl⟩ := List.mem_map.mp hk
    refine ⟨(hwf.tasks task htask).id_valid, .inr rfl, rfl, le_refl _, fun _ => rfl, .inl rfl,
      ⟨?_, le_refl _⟩, nofun, ?_, nofun, nofun, nofun, fun _ => rfl, nofun⟩
    · show now ≠ 0
      omega
    · rintro (hx | hx) <;> cases hx
  · obtain ⟨-, rfl⟩ := hget.mp ht
    cases hl
  · obtain ⟨-, rfl⟩ := hget.mp ht
    cases hl
  · obtain ⟨k, hk⟩ := (KeyMap.mem_values_iff _ _).mp ht
    obtain ⟨-, rfl⟩ := hget.mp hk
    rfl

/-- Valid snapshots are restored exactly when they belong to the definition. -/
theorem restoreWorkflowRun_ok_iff {s : WorkflowRunSnapshot}
    (hs : s.validate = .ok ()) (hd : d.validate = .ok ()) :
    (∃ run, restoreWorkflowRun s d = .ok run) ↔ s.workflowID = d.id ∧
      ∀ k, k ∈ s.tasks.map TaskRun.taskID ↔ k ∈ d.tasks.map TaskDefinition.id := by
  have hv := (WorkflowRunSnapshot.validate_ok_iff s).mp hs
  have hnd := (WorkflowDefinition.wellFormed_of_validate hd).ids_nodup
  have hcontains : ∀ k, (restoredRun s d).tasks.contains k = true ↔
      k ∈ s.tasks.map TaskRun.taskID := by
    intro k
    have hfst : (s.tasks.map fun task => (task.taskID, task.restored s.id)).map Prod.fst =
        s.tasks.map TaskRun.taskID := by
      rw [List.map_map]
      rfl
    rw [restoredRun, KeyMap.contains, Option.isSome_iff_exists, ← hfst, List.mem_map]
    constructor
    · rintro ⟨t, ht⟩
      exact ⟨_, (KeyMap.get?_ofList_iff (by rw [hfst]; exact hv.taskIDs) _ _).mp ht, rfl⟩
    · rintro ⟨⟨k', t⟩, ht, rfl⟩
      exact ⟨t, (KeyMap.get?_ofList_iff (by rw [hfst]; exact hv.taskIDs) _ _).mpr ht⟩
  constructor
  · rintro ⟨run, hr⟩
    obtain ⟨-, -, hwid, hlen, hall, rfl⟩ := restoreWorkflowRun_ok hr
    refine ⟨hwid, ?_⟩
    have hsub : d.tasks.map TaskDefinition.id ⊆ s.tasks.map TaskRun.taskID := by
      intro k hk
      obtain ⟨task, htask, rfl⟩ := List.mem_map.mp hk
      exact (hcontains task.id).mp (hall task htask)
    have hperm : (d.tasks.map TaskDefinition.id).Perm (s.tasks.map TaskRun.taskID) :=
      (hnd.subperm hsub).perm_of_length_le (by simp [hlen])
    exact fun k => hperm.mem_iff.symm
  · rintro ⟨hwid, hids⟩
    have hperm := (List.perm_ext_iff_of_nodup hv.taskIDs hnd).mpr hids
    have hlen : s.tasks.length = d.tasks.length := by simpa using hperm.length_eq
    refine ⟨restoredRun s d, bind_unit_ok_iff.mpr ⟨hs, ?_⟩⟩
    simp only [hd]
    refine bind_unit_ok_iff.mpr ⟨by simp [hwid, hlen], bind_unit_ok_iff.mpr ⟨?_, rfl⟩⟩
    simp only [checkAll_ok_iff, firstError_cons, firstError_nil, and_true, Bool.not_eq_false']
    intro task htask
    exact (hcontains task.id).mpr ((hids task.id).mpr (List.mem_map.mpr ⟨task, htask, rfl⟩))

theorem ValidRun.snapshot_valid {run : WorkflowRun} (h : ValidRun run) :
    run.snapshot.validate = .ok () :=
  (WorkflowRunSnapshot.validate_ok_iff _).mpr (h.sound.snapshot_valid h.oneLease h.agrees)

/-- A valid run is restored from its snapshot as it was. -/
theorem ValidRun.restore {run : WorkflowRun} (h : ValidRun run)
    (hd : d.validate = .ok ()) (hdef : cloneDefinition d = run.definition) :
    restoreWorkflowRun run.snapshot d = .ok run := by
  have hids : ∀ k, k ∈ run.snapshot.tasks.map TaskRun.taskID ↔
      k ∈ d.tasks.map TaskDefinition.id := by
    intro k
    rw [← cloneDefinition_ids d, hdef, ← h.sound.keys k, Option.isSome_iff_exists]
    show k ∈ run.sortedTasks.map TaskRun.taskID ↔ _
    rw [List.mem_map]
    constructor
    · rintro ⟨t, ht, rfl⟩
      exact ⟨t, h.sound.get?_of_mem ht⟩
    · rintro ⟨t, ht⟩
      exact ⟨t, mem_sortedTasks ht, (h.sound.coherent.tasks k t ht).task⟩
  have hwid : run.snapshot.workflowID = d.id := by
    show run.definition.id = d.id
    rw [← hdef]
    rfl
  obtain ⟨r, hr⟩ := (restoreWorkflowRun_ok_iff h.snapshot_valid hd).mpr ⟨hwid, hids⟩
  rw [hr, restore_snapshot_eq h.sound.coherent hdef hr]

/-- Every state a run reaches by the engine's operations, whatever the clock
shows after its creation, has a valid snapshot from which it is restored as it
was; and restoring accepts exactly the valid snapshots of the definition. -/
theorem reachable_runs_valid_and_restorable {runID : RunID} {definition : WorkflowDefinition}
    {run : WorkflowRun} (hnow : 0 < now) (hnew : newWorkflowRun runID definition now = .ok run)
    (ops : List Operation) (hops : AllAllowed run ops) :
    (run.applyAll ops).snapshot.validate = .ok () ∧
    (∃ restored, restoreWorkflowRun (run.applyAll ops).snapshot definition = .ok restored ∧
      restored.snapshot = (run.applyAll ops).snapshot) ∧
    ∀ snapshot, snapshot.validate = .ok () →
      ((∃ restored, restoreWorkflowRun snapshot definition = .ok restored) ↔
        snapshot.workflowID = definition.id ∧
          ∀ k, k ∈ snapshot.tasks.map TaskRun.taskID ↔
            k ∈ definition.tasks.map TaskDefinition.id) := by
  have hvalid := (newWorkflowRun_valid hnow hnew).applyAll ops hops
  obtain ⟨-, hd, hrun⟩ := newWorkflowRun_ok hnew
  have hdef : cloneDefinition definition = (run.applyAll ops).definition := by
    rw [(applyAll_definition (newWorkflowRun_coherent hnew) ops).1, hrun]
  exact ⟨hvalid.snapshot_valid, ⟨_, hvalid.restore hd hdef, rfl⟩,
    fun snapshot hs => restoreWorkflowRun_ok_iff hs hd⟩

/-- The sample history satisfies the conditions of the engine's callers. -/
theorem sample_history_valid : ∃ run,
    newWorkflowRun (ascii "r") sampleDefinition 1 = .ok run ∧ AllAllowed run sampleHistory ∧
      (run.applyAll sampleHistory).snapshot.validate = .ok () := by
  have hallowed : ∀ run, newWorkflowRun (ascii "r") sampleDefinition 1 = .ok run →
      AllAllowed run sampleHistory := by
    intro run hrun
    cases hrun
    exact ⟨trivial, by show WorkflowRun.status _ ≠ _; decide +kernel,
      (noLease_iff _ _).mpr (by decide +kernel), trivial, trivial⟩
  obtain ⟨run, hrun⟩ : ∃ run, newWorkflowRun (ascii "r") sampleDefinition 1 = .ok run := ⟨_, rfl⟩
  exact ⟨run, hrun, hallowed run hrun,
    (reachable_runs_valid_and_restorable (by decide) hrun sampleHistory (hallowed run hrun)).1⟩

end ForgeFlow.Execution
