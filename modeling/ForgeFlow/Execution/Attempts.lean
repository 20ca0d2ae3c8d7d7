import ForgeFlow.Execution.Validity

/-!
# What a task remembers of its attempts

Facts about one task that every operation of the engine keeps: attempts are only
counted up, an attempt that was dispatched stays dispatched, a started one stays
with its worker, and a lease is as old as its attempt.
-/

namespace ForgeFlow.Execution

open ForgeFlow.Base ForgeFlow.Workflow Relation

variable {n : Int} {w : WorkerID} {k : TaskID}

/-- Attempt `n` waits to be started, or was started. -/
def TaskRun.Dispatched (t : TaskRun) (n : Int) : Prop :=
  t.status = .ready ∧ t.attemptCount + 1 = n ∨ n ≤ t.attemptCount

/-- Attempt `n` was started for the worker, and no other worker runs it. -/
def TaskRun.GivenTo (t : TaskRun) (n : Int) (w : WorkerID) : Prop :=
  n ≤ t.attemptCount ∧ (t.status = .running → n = t.attemptCount → t.leasedTo = some w)

section

variable {runID : RunID} {since : Int} {policy : RetryPolicy} {taskID : TaskID} {p : Permits}
  {t t' : TaskRun}

theorem AttemptEnded.not_running {timestamp : Int} (h : AttemptEnded timestamp t t') :
    t'.status ≠ .running := by
  rcases h.status with ⟨hs | hs | hs, -⟩ | ⟨hs, -⟩ <;> rw [hs] <;> decide

/-- What a move does, for facts that do not look at times and texts. -/
theorem TaskMove.cases_status (hi : Identified runID taskID t)
    (hm : TaskMove runID since policy taskID p t t') :
    (t.status = .pending ∧ p.ready ∧ t'.status = .ready ∧ t'.attemptCount = t.attemptCount ∧
      t'.lease = t.lease ∧ t'.currentAttemptID = t.currentAttemptID) ∨
    (∃ w, t.status = .ready ∧ p.start w ∧ t'.status = .running ∧
      t'.attemptCount = t.attemptCount + 1 ∧ t'.leasedTo = some w) ∨
    (t'.status = t.status ∧ t'.attemptCount = t.attemptCount ∧ t'.leasedTo = t.leasedTo ∧
      t'.currentAttemptID = t.currentAttemptID) ∨
    (∃ timestamp, t.status = .running ∧ AttemptEnded timestamp t t') ∨
    (t.status = .retryWaiting ∧ t'.status = .ready ∧ t'.attemptCount = t.attemptCount ∧
      t'.lease = t.lease ∧ t'.currentAttemptID = t.currentAttemptID) ∨
    (p.cancel ∧ t'.status = .canceled ∧ t'.attemptCount = t.attemptCount ∧ t'.lease = none) := by
  cases hm with
  | markReady timestamp hs hr hp => exact .inl ⟨hr, hp, rfl, rfl, rfl, rfl⟩
  | start w d timestamp hs hr hw hd hp => exact .inr (.inl ⟨w, hr, hp, rfl, rfl, rfl⟩)
  | renew w d timestamp hs hd =>
    refine .inr (.inr (.inl ?_))
    rcases renew_cases t w d timestamp with he | ⟨l, hl, -, -, -, he⟩
    · rw [he]
      exact ⟨rfl, rfl, rfl, rfl⟩
    · rw [he]
      exact ⟨rfl, rfl, by simp [TaskRun.leasedTo, hl], rfl⟩
  | complete output taskErr timestamp hs hr =>
    exact .inr (.inr (.inr (.inl ⟨timestamp, hr, complete_ended t policy _ _ _⟩)))
  | recover timestamp hs hr =>
    exact .inr (.inr (.inr (.inl ⟨timestamp, hr, recover_ended hi policy timestamp⟩)))
  | promote timestamp hs hr =>
    exact .inr (.inr (.inr (.inr (.inl ⟨hr, rfl, rfl, rfl, rfl⟩))))
  | cancel cause timestamp hs hp =>
    rcases cancel_cases t cause timestamp with ⟨-, he⟩ | ⟨-, he⟩
    · rw [he]
      exact .inr (.inr (.inl ⟨rfl, rfl, rfl, rfl⟩))
    · rw [he]
      exact .inr (.inr (.inr (.inr (.inr ⟨hp, rfl, rfl, rfl⟩))))

theorem TaskMove.attempts_le (hi : Identified runID taskID t)
    (hm : TaskMove runID since policy taskID p t t') : t.attemptCount ≤ t'.attemptCount := by
  rcases hm.cases_status hi with ⟨-, -, -, h, -⟩ | ⟨w, -, -, -, h, -⟩ | ⟨-, h, -⟩ |
    ⟨timestamp, -, h⟩ | ⟨-, -, h, -⟩ | ⟨-, -, h, -⟩
  · omega
  · omega
  · omega
  · exact le_of_eq h.attempts.symm
  · omega
  · omega

theorem TaskMove.dispatched (hi : Identified runID taskID t)
    (hm : TaskMove runID since policy taskID p t t') (hcancel : ¬p.cancel)
    (h : t.Dispatched n) : t'.Dispatched n := by
  rcases h with ⟨hr, hn⟩ | hn
  · rcases hm.cases_status hi with ⟨hs, -⟩ | ⟨w, -, -, -, hc, -⟩ | ⟨hs, hc, -⟩ | ⟨-, hs, -⟩ |
      ⟨hs, -⟩ | ⟨hc, -⟩
    · rw [hr] at hs
      cases hs
    · exact .inr (by omega)
    · exact .inl ⟨hs.trans hr, by omega⟩
    · rw [hr] at hs
      cases hs
    · rw [hr] at hs
      cases hs
    · exact absurd hc hcancel
  · exact .inr (hn.trans (hm.attempts_le hi))

theorem TaskMove.givenTo (hi : Identified runID taskID t)
    (hm : TaskMove runID since policy taskID p t t')
    (h : t.GivenTo n w) : t'.GivenTo n w := by
  refine ⟨h.1.trans (hm.attempts_le hi), fun hr hn => ?_⟩
  rcases hm.cases_status hi with ⟨-, -, hs, -⟩ | ⟨w', -, -, -, hc, -⟩ | ⟨hs, hc, hl, -⟩ |
    ⟨timestamp, -, he⟩ | ⟨-, hs, -⟩ | ⟨-, hs, -⟩
  · rw [hr] at hs
    cases hs
  · have := h.1
    omega
  · rw [hl]
    exact h.2 (hs ▸ hr) (hc ▸ hn)
  · exact absurd hr he.not_running
  · rw [hr] at hs
    cases hs
  · rw [hr] at hs
    cases hs

/-- A lease that no start brought was there before, for the same attempt. -/
theorem TaskMove.lease_kept (hi : Identified runID taskID t)
    (hm : TaskMove runID since policy taskID p t t') (hstart : ∀ w, ¬p.start w)
    (h : t'.leasedTo = some w) :
    t.leasedTo = some w ∧ t'.currentAttemptID = t.currentAttemptID := by
  rcases hm.cases_status hi with ⟨-, -, -, -, hl, ha⟩ | ⟨w', -, hp, -⟩ | ⟨-, -, hl, ha⟩ |
    ⟨timestamp, -, he⟩ | ⟨-, -, -, hl, ha⟩ | ⟨-, -, -, hl⟩
  · exact ⟨by rwa [TaskRun.leasedTo, ← hl], ha⟩
  · exact absurd hp (hstart w')
  · exact ⟨by rwa [← hl], ha⟩
  · rw [TaskRun.leasedTo, he.lease] at h
    cases h
  · exact ⟨by rwa [TaskRun.leasedTo, ← hl], ha⟩
  · rw [TaskRun.leasedTo, hl] at h
    cases h

/-- A ready task stays ready until it is started or canceled. -/
theorem TaskMove.ready_kept (hi : Identified runID taskID t)
    (hm : TaskMove runID since policy taskID p t t') (hstart : ∀ w, ¬p.start w)
    (hcancel : ¬p.cancel) (h : t.status = .ready) : t'.status = .ready := by
  rcases hm.cases_status hi with ⟨-, -, hs, -⟩ | ⟨w', -, hp, -⟩ | ⟨hs, -⟩ | ⟨-, hs, -⟩ |
    ⟨hs, -⟩ | ⟨hc, -⟩
  · exact hs
  · exact absurd hp (hstart w')
  · exact hs.trans h
  · rw [h] at hs
    cases hs
  · rw [h] at hs
    cases hs
  · exact absurd hc hcancel

end

section

variable {permits : TaskID → Permits} {run run' : WorkflowRun}

theorem Evolves.dispatched (he : Evolves permits run run') (hc : Coherent run)
    (hcancel : ∀ k, ¬(permits k).cancel) {t : TaskRun}
    (ht : run.tasks.get? k = some t) (h : t.Dispatched n) :
    ∃ t', run'.tasks.get? k = some t' ∧ t'.Dispatched n :=
  he.keeps hc (fun _ _ hi hm h => hm.dispatched hi (hcancel k) h) ht h

theorem Evolves.givenTo (he : Evolves permits run run') (hc : Coherent run)
    {t : TaskRun} (ht : run.tasks.get? k = some t)
    (h : t.GivenTo n w) : ∃ t', run'.tasks.get? k = some t' ∧ t'.GivenTo n w :=
  he.keeps hc (fun _ _ hi hm h => hm.givenTo hi h) ht h

theorem Evolves.ready_kept (he : Evolves permits run run') (hc : Coherent run)
    (hstart : ∀ k w, ¬(permits k).start w) (hcancel : ∀ k, ¬(permits k).cancel)
    {t : TaskRun} (ht : run.tasks.get? k = some t) (h : t.status = .ready) :
    ∃ t', run'.tasks.get? k = some t' ∧ t'.status = .ready :=
  he.keeps hc (fun _ _ hi hm h => hm.ready_kept hi (hstart k) (hcancel k) h) ht h

theorem Evolves.lease_kept (he : Evolves permits run run') (hc : Coherent run)
    (hstart : ∀ k w, ¬(permits k).start w) {t' : TaskRun}
    (ht' : run'.tasks.get? k = some t') (h : t'.leasedTo = some w) :
    ∃ t, run.tasks.get? k = some t ∧ t.leasedTo = some w ∧
      t'.currentAttemptID = t.currentAttemptID := by
  obtain ⟨t, ht, -⟩ := he.origin ht'
  obtain ⟨u, hu, hback⟩ := he.keeps hc (k := k)
    (P := fun u => ∀ w, u.leasedTo = some w →
      t.leasedTo = some w ∧ u.currentAttemptID = t.currentAttemptID)
    (fun u u' hi hm h w hw => by
      obtain ⟨hl, ha⟩ := hm.lease_kept hi (hstart k) hw
      exact ⟨(h w hl).1, ha.trans (h w hl).2⟩)
    ht (fun w hw => ⟨hw, rfl⟩)
  rw [ht'] at hu
  cases hu
  exact ⟨t, ht, hback w h⟩

end

end ForgeFlow.Execution
