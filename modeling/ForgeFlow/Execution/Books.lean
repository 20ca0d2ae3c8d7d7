import ForgeFlow.Execution.Ledger

/-!
# The run in memory and the ledger

`Tracked` ties the run a scheduler holds to what it knows to be stored; `Books`
adds what the ledger's entries say about the tasks. The rules for saving and
ending a run and for acknowledging deliveries follow.
-/

namespace ForgeFlow.Execution

open ForgeFlow.Base ForgeFlow.Workflow

/-- The operations of the loop that neither start nor cancel tasks. -/
def Operation.quiet : Operation → Bool
  | .markNewReady _ | .completeTaskAttempt .. | .recordWorkerHeartbeat ..
  | .recoverExpiredLeases _ | .promoteDueRetries _ => true
  | _ => false

theorem Operation.quiet_permits {op : Operation} (h : op.quiet = true) (run : WorkflowRun)
    (k : TaskID) : (∀ w, ¬(op.permits run k).start w) ∧ ¬(op.permits run k).cancel := by
  cases op <;> first | exact ⟨fun _ hs => hs, fun hc => hc⟩ | exact absurd h Bool.false_ne_true

theorem Operation.quiet_allowed {op : Operation} (h : op.quiet = true) {run : WorkflowRun}
    (hs : run.status ≠ .pending) : op.Allowed run := by
  cases op <;> first | exact hs | trivial

theorem Operation.quiet_frame {op : Operation} (h : op.quiet = true) (run : WorkflowRun) :
    (run.apply op).status = run.status ∧ (run.apply op).version = run.version := by
  cases op with
  | markNewReady now => exact (markNewReady_frame _ _ _ _).2
  | completeTaskAttempt k r w a output taskErr now =>
    refine orElse_induction (P := fun r => r.status = run.status ∧ r.version = run.version)
      ⟨rfl, rfl⟩ fun r' hr => ?_
    obtain ⟨o, ho⟩ := map_fst_ok hr
    rcases completeTaskAttempt_cases run k r w a output taskErr now with
      ⟨-, heq⟩ | ⟨t, -, ⟨-, heq⟩ | ⟨-, heq⟩⟩ <;> rw [heq] at ho <;> cases ho <;>
        exact ⟨rfl, rfl⟩
  | recordWorkerHeartbeat w d now =>
    refine orElse_induction (P := fun r => r.status = run.status ∧ r.version = run.version)
      ⟨rfl, rfl⟩ fun r hr => ?_
    obtain ⟨-, -, rfl⟩ := recordWorkerHeartbeat_ok hr
    exact ⟨rfl, rfl⟩
  | recoverExpiredLeases now => exact ⟨rfl, rfl⟩
  | promoteDueRetries now => exact ⟨rfl, rfl⟩
  | startWorkflow now => cases h
  | startTaskAttempt k w d now => cases h
  | stop target cause now now' => cases h
  | succeed now => cases h
  | persisted version => cases h
  | restore => cases h

/-! ## Ledgers that say the same about the run -/

structure Quiet (g g' : Ledger) : Prop where
  stored : g'.stored = g.stored
  definition : g'.definition = g.definition
  published : g'.published = g.published
  jobs : g'.jobs = g.jobs
  outstanding : g'.outstanding = g.outstanding
  spawned : g'.spawned = g.spawned
  roster : g'.roster = g.roster
  staff : g'.staff = g.staff
  taken : g.taken ⊆ g'.taken
  tidy : g'.tidy → g.tidy
  clean : g'.clean → g.clean

theorem Quiet.refl (g : Ledger) : Quiet g g :=
  ⟨rfl, rfl, rfl, rfl, rfl, rfl, rfl, rfl, fun _ h => h, fun h => h, fun h => h⟩

theorem Quiet.trans {g g' g'' : Ledger} (h : Quiet g g') (h' : Quiet g' g'') : Quiet g g'' :=
  ⟨h'.stored.trans h.stored, h'.definition.trans h.definition, h'.published.trans h.published,
    h'.jobs.trans h.jobs, h'.outstanding.trans h.outstanding, h'.spawned.trans h.spawned,
    h'.roster.trans h.roster, h'.staff.trans h.staff, fun _ hc => h'.taken (h.taken hc),
    fun ht => h.tidy (h'.tidy ht), fun hc => h.clean (h'.clean hc)⟩

theorem Quiet.failed (g : Ledger) : Quiet g g.failed :=
  ⟨rfl, rfl, rfl, rfl, rfl, rfl, rfl, rfl, fun _ h => h, fun h => h, fun h => h.elim⟩

theorem Quiet.now (config : EngineConfig) (runID : RunID) (g : Ledger) (t : Int) :
    Quiet g (g.note config runID .now t) :=
  ⟨rfl, rfl, rfl, rfl, rfl, rfl, rfl, rfl, fun _ h => h, fun h => h.1, fun h => h⟩

theorem Quiet.answered (config : EngineConfig) (runID : RunID) (g : Ledger) (claim : WorkerClaim) :
    Quiet g (g.note config runID (.respond claim none) ()) :=
  ⟨rfl, rfl, rfl, rfl, rfl, rfl, rfl, rfl, fun _ h => h, fun h => h, fun h => h⟩

theorem Quiet.holds {g g' : Ledger} (h : Quiet g g') {k : TaskID} {P : TaskRun → Prop} :
    g'.Holds k P ↔ g.Holds k P := by
  unfold Ledger.Holds
  rw [h.stored]

/-! ## The run in memory -/

/-- The run came from what is stored, and is valid as long as the ledger is tidy. -/
structure Tracked (g : Ledger) (run : WorkflowRun) : Prop where
  base : ∃ s base, g.stored = some s ∧ Stored s base ∧ Advances base run
  valid : g.tidy → ValidRun run
  definition : g.definition = some run.definition

/-- The run has no unsaved changes. -/
def Current (g : Ledger) (run : WorkflowRun) : Prop := ∃ s, g.stored = some s ∧ Stored s run

/-- The ledger after the run was saved. -/
def Ledger.saved (g : Ledger) (run : WorkflowRun) : Ledger :=
  { g with
    stored := some { run.snapshot with version := run.version + 1 }
    previous := g.stored
    fresh := True }

def WorkflowRun.nextVersion (run : WorkflowRun) : WorkflowRun :=
  run.setPersistedVersion (run.version + 1)

section

variable {g g' : Ledger} {run : WorkflowRun}

theorem Tracked.coherent (h : Tracked g run) : Coherent run := by
  obtain ⟨s, base, -, hs, ha⟩ := h.base
  exact ha.coherent hs.coherent

theorem Tracked.quiet (h : Tracked g run) (hq : Quiet g g') : Tracked g' run :=
  ⟨by rw [hq.stored]; exact h.base, fun ht => h.valid (hq.tidy ht),
    hq.definition.trans h.definition⟩

theorem Tracked.apply (h : Tracked g run) (op : Operation)
    (hv : (run.apply op).version = run.version) (ha : g.tidy → op.Allowed run) :
    Tracked g (run.apply op) := by
  obtain ⟨s, base, hstored, hs, hadv⟩ := h.base
  refine ⟨⟨s, base, hstored, hs, hadv.apply op hv⟩, fun ht => (h.valid ht).apply op (ha ht), ?_⟩
  rw [(apply_evolves (hadv.coherent hs.coherent) op).definition]
  exact h.definition

theorem Current.quiet (h : Current g run) (hq : Quiet g g') : Current g' run := by
  unfold Current
  rw [hq.stored]
  exact h

theorem Current.tracked (h : Current g run) (hv : g.tidy → ValidRun run)
    (hd : g.definition = some run.definition) : Tracked g run := by
  obtain ⟨s, hstored, hs⟩ := h
  exact ⟨⟨s, run, hstored, hs, .refl run⟩, hv, hd⟩

theorem Current.holds (h : Current g run) {k : TaskID} {P : TaskRun → Prop} :
    g.Holds k P ↔ ∃ t, run.tasks.get? k = some t ∧ P t := by
  obtain ⟨s, hstored, hs⟩ := h
  constructor
  · rintro ⟨s', t, hs', ht, hP⟩
    rw [hstored] at hs'
    cases hs'
    exact ⟨t, by rw [← hs.tasks]; exact ht, hP⟩
  · rintro ⟨t, ht, hP⟩
    exact ⟨s, t, hstored, by rw [hs.tasks]; exact ht, hP⟩

theorem Tracked.saved (h : Tracked g run) : Current (g.saved run) run.nextVersion :=
  ⟨_, rfl, .of_saved h.coherent _⟩

theorem ValidRun.nextVersion (h : ValidRun run) : ValidRun run.nextVersion :=
  h.apply (.persisted (run.version + 1)) trivial

end

/-! ## Saving and ending a run -/

section

variable {config : EngineConfig} {runID : RunID} {g : Ledger} {run : WorkflowRun}

/-- One call: what it needs, and every result it may have. -/
theorem wp_call {α : Type} {c : EngineCall} {f : EngineResult c → Engine α}
    {Q : α → Ledger → Prop} :
    (call c >>= f).wp (schedulerContract config runID) Q g ↔
      g.needs config runID c ∧ ∀ r, g.expects runID c r →
        (f r).wp (schedulerContract config runID) Q (g.note config runID c r) := Iff.rfl

/-- A call without conditions. -/
theorem wp_call_of {α : Type} {c : EngineCall} {f : EngineResult c → Engine α}
    {Q : α → Ledger → Prop} (hneeds : g.needs config runID c)
    (h : ∀ r, (f r).wp (schedulerContract config runID) Q (g.note config runID c r)) :
    (call c >>= f).wp (schedulerContract config runID) Q g :=
  ⟨hneeds, fun r _ => h r⟩

/-- How a save comes out. -/
def SaveResult (g : Ledger) (run : WorkflowRun) : Except GoString WorkflowRun → Ledger → Prop
  | .ok run', g' => run' = run.nextVersion ∧ g' = g.saved run
  | .error _, g' => g' = g.failed

theorem persisted_ok (run : WorkflowRun) (operation : String) :
    persisted run operation (.ok { run.snapshot with version := run.snapshot.version + 1 }) =
      .ok run.nextVersion := by
  simp [persisted, applyPersistedVersion, Except.bind, firstError, Except.mapError,
    WorkflowRun.nextVersion, WorkflowRun.snapshot]

theorem wp_saveRun (h : Tracked g run) (operation : String) :
    (saveRun run operation).wp (schedulerContract config runID) (SaveResult g run) g := by
  obtain ⟨s, base, hstored, hs, hadv⟩ := h.base
  refine wp_call.mpr ⟨⟨s, base, run, hstored, hs, hadv, rfl, h.valid, h.definition⟩, fun r hr => ?_⟩
  cases r with
  | error e => exact rfl
  | ok stored =>
    have hr : stored = { run.snapshot with version := run.snapshot.version + 1 } := hr
    subst hr
    show SaveResult g run (persisted run operation _) _
    rw [persisted_ok]
    exact ⟨rfl, rfl⟩

/-- No worker was spawned, or none is left. -/
def Ledger.Deserted (g : Ledger) : Prop := g.spawned = [] ∨ g.staff = .gone

theorem Quiet.deserted {g' : Ledger} (h : Quiet g g') (hd : g.Deserted) : g'.Deserted := by
  rw [Ledger.Deserted, h.spawned, h.staff]
  exact hd

/-- What holds when a call of `Execute` or `Recover` returns: no worker is left, and with
nothing out of order on the way, or without an error, the stored run has ended. -/
structure Ending (o : RunOutcome) (g : Ledger) : Prop where
  deserted : g.Deserted
  stored : g.tidy → g.clean → ∃ s, g.stored = some s ∧ s.status.terminal = true
  returned : o.error = none → ∃ s run, g.stored = some s ∧ s.status.terminal = true ∧
    o.run = some run ∧ run.status = s.status

theorem Ending.of_unclean {o : Option WorkflowRun} {e : GoString} (hd : g.Deserted)
    (h : ¬g.clean) : Ending ⟨o, some e⟩ g :=
  ⟨hd, fun _ hc => absurd hc h, nofun⟩

theorem Ending.of_saved {error : Option GoString} (hd : g.Deserted)
    (h : run.status.terminal = true) : Ending ⟨some run.nextVersion, error⟩ (g.saved run) :=
  ⟨hd, fun _ _ => ⟨_, rfl, h⟩, fun _ => ⟨_, _, rfl, h, rfl, rfl⟩⟩

/-- The tail of `failRun`, `cancelRun` and `finishRecovered`: stop and save. -/
theorem Tracked.stopped (h : Tracked g run) (target : WorkflowRunStatus) (cause : TaskError)
    (now now' : Int) (hl : legalWorkflowTransition run.status target = true)
    (ha : g.tidy → (Operation.stop target (some cause) now now').Allowed run) :
    ∃ run', stopRun run target (some cause) now now' = (run', .ok ()) ∧ run'.status = target ∧
      Tracked g run' := by
  have hstop : stopRun run target (some cause) now now' = _ := stopRun_ok hl
  have hfst : run.apply (.stop target (some cause) now now') =
      (stopRun run target (some cause) now now').1 := rfl
  have htracked := h.apply (.stop target (some cause) now now')
    (by rw [hfst, hstop]; rfl) ha
  rw [hfst] at htracked
  rw [hstop] at htracked ⊢
  exact ⟨_, rfl, rfl, htracked⟩

theorem wp_failRun (h : Tracked g run) (hs : run.status = .running)
    (hopen : g.tidy → ∃ k t, run.tasks.get? k = some t ∧ t.status ≠ .succeeded)
    (hd : g.Deserted) (cause : GoString) :
    (failRun run cause).wp (schedulerContract config runID) Ending g := by
  refine wp_call_of trivial fun now => wp_call_of trivial fun now' => ?_
  have hq := (Quiet.now config runID g now).trans (Quiet.now config runID _ now')
  obtain ⟨run', hstop, hst, htracked⟩ := (h.quiet hq).stopped .failed { text := cause } now now'
    (by rw [hs]; rfl) (fun ht => ⟨by rw [hs]; nofun, hopen (hq.tidy ht)⟩)
  simp only [hstop]
  refine Prog.wp_seq (wp_saveRun htracked _) ?_
  rintro (e | run'') g' hsave
  · rw [hsave]
    exact Ending.of_unclean (hq.deserted hd) id
  · obtain ⟨rfl, rfl⟩ := hsave
    exact Ending.of_saved (hq.deserted hd) (by rw [hst]; rfl)

theorem wp_cancelRun (h : Tracked g run) (hs : run.status = .pending ∨ run.status = .running)
    (hopen : g.tidy → ∀ k t, run.tasks.get? k = some t → t.status ≠ .failed)
    (hd : g.Deserted) (cause : GoString) :
    (cancelRun run cause).wp (schedulerContract config runID) Ending g := by
  refine wp_call_of trivial fun now => wp_call_of trivial fun now' => ?_
  have hq := (Quiet.now config runID g now).trans (Quiet.now config runID _ now')
  obtain ⟨run', hstop, hst, htracked⟩ := (h.quiet hq).stopped .canceled { text := cause } now now'
    (by rcases hs with hs | hs <;> rw [hs] <;> rfl) (fun ht => hopen (hq.tidy ht))
  simp only [hstop]
  refine Prog.wp_seq (wp_saveRun htracked _) ?_
  rintro (e | run'') g' hsave
  · rw [hsave]
    exact Ending.of_unclean (hq.deserted hd) id
  · obtain ⟨rfl, rfl⟩ := hsave
    exact Ending.of_saved (hq.deserted hd) (by rw [hst]; rfl)

end

/-! ## Acknowledging deliveries -/

section

variable {config : EngineConfig} {runID : RunID} {g g' : Ledger} {run : WorkflowRun}

/-- The ledger after deliveries were settled: an error leaves its mark. -/
def Settling (g : Ledger) (err : Option GoString) (g' : Ledger) : Prop :=
  Quiet g g' ∧ (err ≠ none → ¬g'.clean)

theorem Quiet.needs_ack (hq : Quiet g g') {d : Delivery} (h : g.needs config runID (.ack d)) :
    g'.needs config runID (.ack d) := by
  intro k n hp hr hk hm
  rw [hq.published] at hp
  exact hq.holds.mpr (h k n hp hr hk hm)

theorem wp_acknowledgeDelivery (r : RunID) {d : Delivery} (h : g.needs config runID (.ack d)) :
    (acknowledgeDelivery r d).wp (schedulerContract config runID) (Settling g) g := by
  refine wp_call_of h fun answer => ?_
  cases answer with
  | ok _ => exact ⟨.refl g, fun hne => absurd rfl hne⟩
  | error err =>
    refine wp_call_of trivial fun nackErr => ?_
    have hmark : (Ledger.note config runID g.failed (.nack d) nackErr) = g.failed := by
      rcases nackErr with (_ | _) | _ <;> rfl
    show Settling g _ (Ledger.note config runID g.failed (.nack d) nackErr)
    rw [hmark]
    exact ⟨.failed g, fun _ => id⟩

theorem wp_acknowledgePendingClaims (r : RunID) : ∀ {claims : List WorkerClaim} {g : Ledger},
    (∀ c ∈ claims, g.needs config runID (.ack c.delivery) ∧ c ∈ g.taken) →
    (acknowledgePendingClaims r claims).wp (schedulerContract config runID) (Settling g) g
  | [], g, _ => ⟨.refl g, fun hne => absurd rfl hne⟩
  | c :: rest, g, h => by
    refine Prog.wp_seq (wp_acknowledgeDelivery r (h c List.mem_cons_self).1) ?_
    rintro (_ | e) g₁ ⟨hq, hmark⟩
    · refine wp_call_of (hq.taken (h c List.mem_cons_self).2) fun _ => ?_
      have hq₂ : Quiet g (g₁.note config runID (.respond c none) ()) :=
        hq.trans (.answered config runID g₁ c)
      refine Prog.wp_mono (fun e g' hs => ⟨hq₂.trans hs.1, hs.2⟩)
        (wp_acknowledgePendingClaims r fun c' hc' => ?_)
      obtain ⟨hneeds, htaken⟩ := h c' (List.mem_cons_of_mem _ hc')
      exact ⟨hq₂.needs_ack hneeds, hq₂.taken htaken⟩
    · exact ⟨hq, hmark⟩

end

/-! ## What the entries of the ledger say about the tasks -/

/-- The job is attempt `n` of the task, given for the delivery of its message. -/
structure JobFor (runID : RunID) (k : TaskID) (n : Int) (claim : WorkerClaim) (job : TaskJob) :
    Prop where
  task : job.request.task.id = k
  taskRun : job.request.taskRunID = taskRunIDFor runID k
  attempt : job.request.attemptID = attemptIDFor (taskRunIDFor runID k) n
  delivery : claim.delivery.message.id = job.request.attemptID

structure Books (config : EngineConfig) (runID : RunID) (g : Ledger) (run : WorkflowRun) :
    Prop where
  tracked : Tracked g run
  grounded : Grounded run
  id : run.id = runID
  status : run.status = .running
  published : ∀ k n, attemptMessage runID k n ∈ g.published →
    ∃ t, run.tasks.get? k = some t ∧ t.Dispatched n
  jobs : ∀ p ∈ g.jobs, ∃ k n t, run.tasks.get? k = some t ∧ t.GivenTo n p.1.workerID ∧
    JobFor runID k n p.1 p.2
  leases : g.tidy → ∀ k t w, run.tasks.get? k = some t → t.leasedTo = some w →
    Spawnable config runID w → (w, t.currentAttemptID) ∈ g.outstanding

section

variable {config : EngineConfig} {runID : RunID} {g g' : Ledger} {run : WorkflowRun}

theorem Books.quiet (h : Books config runID g run) (hq : Quiet g g') :
    Books config runID g' run where
  tracked := h.tracked.quiet hq
  grounded := h.grounded
  id := h.id
  status := h.status
  published := by rw [hq.published]; exact h.published
  jobs := by rw [hq.jobs]; exact h.jobs
  leases := by
    intro ht
    rw [hq.outstanding]
    exact h.leases (hq.tidy ht)

/-- A quiet operation leaves the books in order. -/
theorem Books.apply (h : Books config runID g run) (op : Operation) (hop : op.quiet = true) :
    Books config runID g (run.apply op) := by
  have hc := h.tracked.coherent
  have he := apply_evolves hc op
  have hstart : ∀ k w, ¬(op.permits run k).start w := fun k => (op.quiet_permits hop run k).1
  have hcancel : ∀ k, ¬(op.permits run k).cancel := fun k => (op.quiet_permits hop run k).2
  obtain ⟨hs, hv⟩ := op.quiet_frame hop run
  refine ⟨h.tracked.apply op hv fun _ => op.quiet_allowed hop (by rw [h.status]; nofun),
    h.grounded.evolves he, he.id.trans h.id, hs.trans h.status, fun k n hp => ?_, fun p hp => ?_,
    fun ht k t' w ht' hl hw => ?_⟩
  · obtain ⟨t, hget, hd⟩ := h.published k n hp
    exact he.dispatched hc hcancel hget hd
  · obtain ⟨k, n, t, hget, hgiven, hjob⟩ := h.jobs p hp
    obtain ⟨t', hget', hgiven'⟩ := he.givenTo hc hget hgiven
    exact ⟨k, n, t', hget', hgiven', hjob⟩
  · obtain ⟨t, hget, hlt, ha⟩ := he.lease_kept hc hstart ht' hl
    rw [ha]
    exact h.leases ht k t w hget hlt hw

theorem Books.saved (h : Books config runID g run) :
    Books config runID (g.saved run) run.nextVersion where
  tracked := h.tracked.saved.tracked (fun ht => (h.tracked.valid ht).nextVersion)
    h.tracked.definition
  grounded := ⟨h.grounded.id, h.grounded.task, h.grounded.defined⟩
  id := h.id
  status := h.status
  published := h.published
  jobs := h.jobs
  leases := h.leases

end

end ForgeFlow.Execution
