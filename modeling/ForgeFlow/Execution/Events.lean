import ForgeFlow.Execution.Rounds

/-!
# The events of a round

Claims, heartbeats, lost workers and results: each handler keeps the invariant of
the loop or ends the call, and so does a whole round.
-/

namespace ForgeFlow.Execution

open ForgeFlow.Base ForgeFlow.Workflow

variable {w : WorkerID} {now : Int}

section

variable {config : EngineConfig} {runID : RunID} {g g' : Ledger} {st st' : Scheduler}
  {claim : WorkerClaim}

theorem Scheduling.quiet (h : Scheduling config runID st g) (hq : Quiet g g') :
    Scheduling config runID st g' :=
  ⟨h.books.quiet hq, h.desk.quiet hq, h.current.quiet hq, h.unfailed⟩

theorem Working.quiet (h : Working config runID st g) (hq : Quiet g g') :
    Working config runID st g' :=
  ⟨h.toScheduling.quiet hq, fun ht => h.unfinished (hq.tidy ht)⟩

theorem Working.wp_failWith (h : Working config runID st g) (cause : GoString) :
    (failWith st cause).wp (schedulerContract config runID)
      (Step.Holds (Scheduling config runID) Ending) g :=
  Execution.wp_failWith h.books.tracked h.books.status h.unfinished cause

/-! ## Claims -/

/-- A claim was taken and waits for its answer. -/
structure Claiming (config : EngineConfig) (runID : RunID) (claim : WorkerClaim) (st : Scheduler)
    (g : Ledger) : Prop extends Working config runID st g where
  asked : g.claim = some claim
  taken : claim ∈ g.taken
  idle : g.tidy → ∀ a, (claim.workerID, a) ∉ g.outstanding
  own : g.clean → g.Own runID claim.delivery

theorem Working.take (h : Working config runID st g) (armed : Bool) (claim : WorkerClaim) :
    Claiming config runID claim st (g.note config runID (.select armed) (.claim claim)) := by
  have hq : Quiet g (g.note config runID (.select armed) (.claim claim)) :=
    ⟨rfl, rfl, rfl, rfl, rfl, rfl, rfl, rfl, fun _ hc => List.mem_cons_of_mem _ hc, fun ht => ht.1,
      fun hc => hc.1⟩
  exact ⟨h.quiet hq, rfl, List.mem_cons_self, fun ht => ht.2, fun hc => hc.2⟩

/-- A claim sent away without a job. -/
theorem wp_sendAway (h : Scheduling config runID st g) (ht : claim ∈ g.taken) :
    (do call (.respond claim none); return .again st : Round).wp (schedulerContract config runID)
      (Step.Holds (Scheduling config runID) Ending) g :=
  wp_call_of ht fun _ => h.quiet (.answered config runID g claim)

theorem wp_rejectStale (h : Claiming config runID claim st g) :
    (rejectStale st claim).wp (schedulerContract config runID)
      (Step.Holds (Scheduling config runID) Ending) g := by
  refine wp_call_of trivial fun answer => ?_
  rcases answer with (_ | text) | _
  · exact wp_sendAway h.toScheduling h.taken
  · exact wp_abandon id _ _
  · exact wp_sendAway h.toScheduling h.taken

/-- The delivery is of an attempt of a task of this run, with IDs that JSON keeps. -/
def Recognised (runID : RunID) (run : WorkflowRun) (d : Delivery) : Prop :=
  ∃ k n t, d.message = attemptMessage runID k n ∧ validUTF8 runID = true ∧ validUTF8 k = true ∧
    run.tasks.get? k = some t

theorem Books.decode_own {run : WorkflowRun} (h : Books config runID g run) {k : TaskID}
    {t : TaskRun} (ht : run.tasks.get? k = some t) (hr : validUTF8 runID = true)
    (hk : validUTF8 k = true) (n : Int) :
    decodeTaskDispatch (attemptMessage runID k n) =
      .ok ⟨runID, k, taskRunIDFor runID k, attemptIDFor (taskRunIDFor runID k) n⟩ :=
  decode_attemptMessage (h.id ▸ h.grounded.id) (h.grounded.task k t ht) hr hk n

theorem wp_refuseDelivery (h : Claiming config runID claim st g)
    (hno : ¬Recognised runID st.run claim.delivery) (operation : String)
    (cause : Option GoString) :
    (refuseDelivery st claim operation cause).wp (schedulerContract config runID)
      (Step.Holds (Scheduling config runID) Ending) g := by
  have hneeds : g.needs config runID (.ack claim.delivery) := by
    intro k n hp hr hk hm
    obtain ⟨t, ht, -⟩ := h.books.published k n hp
    exact absurd ⟨k, n, t, hm, hr, hk, ht⟩ hno
  refine Prog.wp_seq (wp_acknowledgeDelivery _ hneeds) ?_
  rintro ackErr g' ⟨hq, -⟩
  refine wp_call_of (hq.taken h.taken) fun _ => wp_abandon (fun hclean => ?_) _ _
  obtain ⟨k, n, hm, hr, hk, hholds⟩ := h.own (hq.clean hclean)
  obtain ⟨t, ht, -⟩ := h.current.holds.mp hholds
  exact hno ⟨k, n, t, hm, hr, hk, ht⟩

/-- A claimed delivery whose attempt is over is acknowledged. -/
theorem wp_dropDelivery (h : Claiming config runID claim st g)
    (hneeds : g.needs config runID (.ack claim.delivery)) :
    (dropDelivery st claim).wp (schedulerContract config runID)
      (Step.Holds (Scheduling config runID) Ending) g := by
  refine Prog.wp_seq (wp_acknowledgeDelivery _ hneeds) ?_
  rintro (_ | e) g' ⟨hq, hmark⟩
  · exact wp_sendAway (h.toScheduling.quiet hq) (hq.taken h.taken)
  · exact wp_abandon (hmark (by simp)) _ _

/-- What starting an attempt does to the run. -/
structure Started (run run' : WorkflowRun) (k : TaskID) (t t' : TaskRun) (w : WorkerID)
    (a : AttemptID) : Prop where
  id : run'.id = run.id
  status : run'.status = run.status
  version : run'.version = run.version
  tasks : run'.tasks = run.tasks.insert k t'
  task : t'.taskID = t.taskID
  running : t'.status = .running
  count : t'.attemptCount = t.attemptCount + 1
  attempt : t'.currentAttemptID = a
  named : a = attemptIDFor (taskRunIDFor run.id k) (t.attemptCount + 1)
  lease : ∃ l, t'.lease = some l ∧ l.workerID = w ∧ l.attemptID = a

theorem startTaskAttempt_started {run run' : WorkflowRun} {k : TaskID} {d : Int}
    {a : AttemptID} (h : run.startTaskAttempt k w d now = .ok (run', a)) :
    validIdentifier w = true ∧ ∃ t t', run.tasks.get? k = some t ∧ t.status = .ready ∧
      Started run run' k t t' w a := by
  obtain ⟨hw, -, t, ht, hs, rfl, rfl⟩ := startTaskAttempt_ok h
  exact ⟨hw, t, _, ht, hs, rfl, rfl, rfl, rfl, rfl, rfl, rfl, rfl, rfl, _, rfl, rfl, rfl⟩

theorem Started.leasedTo {run run' : WorkflowRun} {k : TaskID} {t t' : TaskRun}
    {a : AttemptID} (h : Started run run' k t t' w a) : t'.leasedTo = some w := by
  obtain ⟨l, hl, hw, -⟩ := h.lease
  rw [TaskRun.leasedTo, hl, Option.map_some, hw]

/-- The worker of a slot that asks for work has no lease, if all is tidy. -/
theorem Claiming.noLease (h : Claiming config runID claim st g)
    (hcurrent : st.isCurrent claim.slot claim.workerID = true)
    (hw : validIdentifier claim.workerID = true) (ht : g.tidy) :
    NoLease st.run claim.workerID := by
  have hne : claim.workerID ≠ [] := by
    intro hnil
    rw [hnil] at hw
    exact absurd hw (by decide)
  have hspawn := (h.desk.slots _ _ (Scheduler.get?_of_isCurrent hcurrent hne)).1
  intro k t hget hlease
  exact h.idle ht _ (h.books.leases ht k t _ hget hlease hspawn)

/-- The ledger after the lease was saved and the job given out. -/
def Ledger.handed (g : Ledger) (run : WorkflowRun) (claim : WorkerClaim) (job : TaskJob) : Ledger :=
  { g.saved run with
    claim := none
    fresh := False
    jobs := (claim, job) :: g.jobs
    outstanding := (claim.workerID, job.request.attemptID) :: g.outstanding }

section

variable {run : WorkflowRun} {k : TaskID} {t t' : TaskRun} {a : AttemptID} {job : TaskJob}

theorem Started.get? (h : Started st.run run k t t' w a) :
    run.tasks.get? k = some t' := by
  rw [h.tasks, KeyMap.get?_insert_self]

/-- A task after the start is the started one or as before. -/
theorem Started.origin (h : Started st.run run k t t' w a) {k' : TaskID}
    {u : TaskRun} (hu : run.tasks.get? k' = some u) :
    k' = k ∧ u = t' ∨ k' ≠ k ∧ st.run.tasks.get? k' = some u := by
  rw [h.tasks, KeyMap.get?_insert] at hu
  split at hu
  · rename_i hk
    cases hu
    exact .inl ⟨hk, rfl⟩
  · rename_i hk
    exact .inr ⟨hk, hu⟩

theorem Started.kept (h : Started st.run run k t t' w a) {k' : TaskID}
    (hk : k' ≠ k) : run.tasks.get? k' = st.run.tasks.get? k' := by
  rw [h.tasks, KeyMap.get?_insert_ne _ _ hk]

theorem Scheduling.handing (h : Scheduling config runID st g) (hc : Coherent run)
    (ht : st.run.tasks.get? k = some t) (hs : Started st.run run k t t' claim.workerID a)
    (htask : job.request.task.id = k) (hjob : job.request.attemptID = a)
    (hcontext : job.context = taskContext) : (g.saved run).Handing runID claim job := by
  obtain ⟨s, hstored, hst⟩ := h.current
  obtain ⟨l, hl, hlw, hla⟩ := hs.lease
  have hsaved := Stored.of_saved hc (run.version + 1)
  refine ⟨_, s, k, t', t, l, rfl, hstored, mem_sortedTasks hs.get?, ?_, ?_, ?_, ?_, htask, hs.running,
    hs.attempt.trans hjob.symm, hl, hlw, hla.trans hjob.symm, ?_, hcontext⟩
  · rw [hsaved.tasks]
    exact hs.get?
  · rw [hst.tasks]
    exact ht
  · rw [hs.count]
    exact Int.lt_succ _
  · rw [hs.task]
    exact (h.books.tracked.coherent.tasks k t ht).task
  · rw [hjob, hs.named, hs.count, h.books.id]

theorem Books.handed (h : Books config runID g st.run) (hd now : Int)
    (hstart : st.run.startTaskAttempt k claim.workerID hd now = .ok (run, a))
    (htracked : Tracked g run)
    (hs : Started st.run run k t t' claim.workerID a)
    (hjob : JobFor runID k (t.attemptCount + 1) claim job) (ha : job.request.attemptID = a) :
    Books config runID (g.handed run claim job) run.nextVersion := by
  have hc := h.tracked.coherent
  have happly : st.run.apply (.startTaskAttempt k claim.workerID hd now) = run := by
    rw [WorkflowRun.apply, hstart]
    rfl
  have he := happly ▸ apply_evolves hc (.startTaskAttempt k claim.workerID hd now)
  have hnext := htracked.saved.tracked (fun htidy => (htracked.valid htidy).nextVersion)
    htracked.definition
  have hground := h.grounded.evolves he
  refine ⟨⟨hnext.base, hnext.valid, hnext.definition⟩, ⟨hground.id, hground.task, hground.defined⟩,
    hs.id.trans h.id, hs.status.trans h.status, fun k' n hp => ?_, fun p hp => ?_,
    fun htidy k' u w hu hl hw => ?_⟩
  · obtain ⟨u, hu, hdisp⟩ := h.published k' n hp
    exact he.dispatched hc (fun _ hf => hf) hu hdisp
  · rcases List.mem_cons.mp hp with rfl | hp
    · exact ⟨k, t.attemptCount + 1, t', hs.get?, ⟨le_of_eq hs.count.symm, fun _ _ => hs.leasedTo⟩, hjob⟩
    · obtain ⟨k', n, u, hu, hgiven, hfor⟩ := h.jobs p hp
      obtain ⟨u', hu', hgiven'⟩ := he.givenTo hc hu hgiven
      exact ⟨k', n, u', hu', hgiven', hfor⟩
  · rcases hs.origin hu with ⟨-, rfl⟩ | ⟨-, hu⟩
    · rw [hs.leasedTo] at hl
      cases hl
      rw [hs.attempt, ← ha]
      exact List.mem_cons_self
    · exact List.mem_cons_of_mem _ (h.leases htidy k' u w hu hl hw)

theorem Desk.handed (h : Desk config runID g st) (ht : st.run.tasks.get? k = some t)
    (hready : t.status = .ready) (hs : Started st.run run k t t' claim.workerID a)
    (inFlight : KeyMap AttemptID Unit) (active : KeyMap WorkerID Delivery) :
    Desk config runID (g.handed run claim job) { st with
      run := run.nextVersion
      ready := st.ready.erase k
      inFlight := inFlight
      activeDeliveries := active } where
  completed k' := by
    rw [h.completed k']
    by_cases hk : k' = k
    · subst hk
      show _ ↔ ∃ u, run.tasks.get? k' = some u ∧ u.status = .succeeded
      simp [ht, hready, hs.get?, hs.running]
    · show _ ↔ ∃ u, run.tasks.get? k' = some u ∧ u.status = .succeeded
      rw [hs.kept hk]
  ready k' hk' := by
    rw [KeyMap.contains, KeyMap.get?_erase] at hk'
    split at hk'
    · cases hk'
    · rename_i hk
      show ∃ u, run.tasks.get? k' = some u ∧ u.status = .ready
      rw [hs.kept hk]
      exact h.ready k' hk'
  pending := h.pending
  slots := h.slots
  spawned := h.spawned
  workers := h.workers

end

theorem wp_leaseDelivered (h : Claiming config runID claim st g) {k : TaskID} {t : TaskRun}
    (ht : st.run.tasks.get? k = some t)
    (hcurrent : st.isCurrent claim.slot claim.workerID = true)
    (hid : claim.delivery.message.id = attemptIDFor t.taskRunID (t.attemptCount + 1)) :
    (leaseDelivered config st claim k t).wp (schedulerContract config runID)
      (Step.Holds (Scheduling config runID) Ending) g := by
  refine wp_call_of trivial fun now => ?_
  have hq := Quiet.now config runID g now
  have hb := h.books.quiet hq
  cases hstart : st.run.startTaskAttempt k claim.workerID config.leaseDuration now with
  | error e => exact (h.toWorking.quiet hq).wp_failWith _
  | ok r =>
    obtain ⟨run, a⟩ := r
    obtain ⟨hw, t₀, t', ht₀, hready, hs⟩ := startTaskAttempt_started hstart
    rw [ht] at ht₀
    cases ht₀
    have happly : st.run.apply (.startTaskAttempt k claim.workerID config.leaseDuration now) = run := by
      rw [WorkflowRun.apply, hstart]
      rfl
    have htracked : Tracked (g.note config runID .now now) run := by
      rw [← happly]
      refine hb.tracked.apply _ (by rw [happly]; exact hs.version) fun htidy => ?_
      exact h.noLease hcurrent hw (hq.tidy htidy)
    refine Prog.wp_seq (wp_saveRun htracked _) ?_
    rintro (e | run') g' hsave
    · rw [hsave]
      exact wp_abandon id _ _
    · obtain ⟨rfl, rfl⟩ := hsave
      have hi := hb.tracked.coherent.tasks k t ht
      have hsched := h.toScheduling.quiet hq
      have he := happly ▸ apply_evolves hb.tracked.coherent
        (.startTaskAttempt k claim.workerID config.leaseDuration now)
      let job : TaskJob := ⟨taskContext, ⟨run.id, t.taskRunID, a, cloneTaskDefinition
        (requireDefinition (taskDefinitionsByID run.definition) k)⟩, st.handlers.get? k⟩
      have hjob : JobFor runID k (t.attemptCount + 1) claim job :=
        ⟨(hb.grounded.evolves he).defined k t' hs.get?, by rw [← hb.id]; exact hi.taskRun,
          by rw [← hb.id]; exact hs.named, by rw [hid, hi.taskRun]; exact hs.named.symm⟩
      have hmanned : g.Manned claim := fun hne =>
        (h.desk.slots _ _ (Scheduler.get?_of_isCurrent hcurrent hne)).2
      refine wp_call_of ⟨hmanned, h.asked, trivial,
        hsched.handing htracked.coherent ht hs hjob.task rfl rfl⟩ fun _ => ?_
      refine ⟨hb.handed _ now hstart htracked hs hjob rfl, hsched.desk.handed ht hready hs _ _,
        htracked.saved, fun k' u hu => ?_⟩
      rcases hs.origin hu with ⟨-, rfl⟩ | ⟨-, hu⟩
      · simp [hs.running]
      · exact h.unfailed k' u hu

/-- A claim for an attempt that runs waits for its end. -/
theorem Claiming.hold (h : Claiming config runID claim st g) {a : AttemptID}
    (ha : claim.delivery.message.id = a) :
    Scheduling config runID { st with
      pendingClaims := st.pendingClaims.insert a (st.pendingFor a ++ [claim]) } g := by
  refine ⟨h.books, ⟨h.desk.completed, h.desk.ready, fun a' c hc => ?_, h.desk.slots,
    h.desk.spawned, h.desk.workers⟩, h.current, h.unfailed⟩
  rw [Scheduler.pendingFor, KeyMap.get?_insert] at hc
  split at hc
  · rename_i heq
    subst heq
    rcases List.mem_append.mp hc with hc | hc
    · exact h.desk.pending _ c hc
    · rw [List.mem_singleton.mp hc]
      exact ⟨ha, h.taken⟩
  · exact h.desk.pending a' c hc

/-- A message of an attempt of the run fits, with IDs that JSON keeps. -/
theorem Books.fits (h : Books config runID g st.run) {m : TaskMessage} {k : TaskID} {n : Int}
    {t : TaskRun} (hm : m = attemptMessage runID k n) (hr : validUTF8 runID = true)
    (hk : validUTF8 k = true) (ht : st.run.tasks.get? k = some t) :
    st.Fits m ⟨runID, k, taskRunIDFor runID k, attemptIDFor (taskRunIDFor runID k) n⟩ t where
  decoded := by
    rw [hm]
    exact h.decode_own ht hr hk n
  run := h.id.symm
  topic := by rw [hm, h.id]; rfl
  id := by rw [hm]; rfl
  task := ht
  taskRun := by rw [h.id]

/-- An attempt whose delivery is dropped is not up, and it does not run. -/
theorem Books.dropped (h : Books config runID g st.run) {m : TaskMessage} {dispatch : TaskDispatch}
    {task : TaskRun} (hfits : st.Fits m dispatch task)
    (hnext : ¬(task.status = .ready ∧
      dispatch.attemptID = attemptIDFor task.taskRunID (task.attemptCount + 1)))
    (hrunning : ¬(task.status = .running ∧ dispatch.attemptID = task.currentAttemptID))
    {k : TaskID} {n : Int} {t : TaskRun} (hm : m = attemptMessage runID k n)
    (hr : validUTF8 runID = true) (hk : validUTF8 k = true) (ht : st.run.tasks.get? k = some t) :
    ¬(t.status = .ready ∧ t.attemptCount + 1 = n) ∧ ¬(t.status = .running ∧ n = t.attemptCount) := by
  have hdispatch := hfits.decoded.symm.trans (h.fits hm hr hk ht).decoded
  cases hdispatch
  have htask := hfits.task.symm.trans ht
  cases htask
  have hi := h.tracked.coherent.tasks k _ ht
  rw [h.id] at hi
  refine ⟨fun hready => hnext ⟨hready.1, ?_⟩, fun hrun => hrunning ⟨hrun.1, ?_⟩⟩
  · rw [hi.taskRun, hready.2]
  · rw [hi.attempt_ne_nil (hi.running hrun.1), ← hrun.2]

theorem wp_handleClaim (h : Claiming config runID claim st g) :
    (handleClaim config st claim).wp (schedulerContract config runID)
      (Step.Holds (Scheduling config runID) Ending) g := by
  have hb := h.books
  rcases handleClaim_cases config st claim with ⟨-, heq⟩ | ⟨-, hno, operation, cause, heq⟩ |
    ⟨dispatch, task, hcurrent, hfits, ⟨-, ha, heq⟩ | ⟨-, -, heq⟩ | ⟨hnext, hrunning, heq⟩⟩ <;>
    rw [heq]
  · exact wp_rejectStale h
  · refine wp_refuseDelivery h ?_ _ _
    rintro ⟨k, n, t, hm, hr, hk, ht⟩
    exact hno _ _ (hb.fits hm hr hk ht)
  · exact wp_leaseDelivered h hfits.task hcurrent (hfits.id.trans ha)
  · exact h.hold hfits.id
  · refine wp_dropDelivery h fun k n hp hr hk hm => ?_
    obtain ⟨t, ht, hdisp⟩ := hb.published k n hp
    obtain ⟨hready, hrun⟩ := hb.dropped hfits hnext hrunning hm hr hk ht
    refine h.current.holds_past hb.id ⟨t, ht, ?_⟩
    rcases hdisp with hup | hn
    · exact absurd hup hready
    · rcases lt_or_eq_of_le hn with hlt | hn
      · exact .inl hlt
      · exact .inr ⟨hn, fun hs => hrun ⟨hs, hn⟩⟩

/-! ## Heartbeats, lost workers, broker errors -/

theorem Desk.same_status (h : Desk config runID g st) (run : WorkflowRun)
    (hsame : ∀ k, (run.tasks.get? k).map TaskRun.status =
      (st.run.tasks.get? k).map TaskRun.status) :
    Desk config runID g { st with run := run } := by
  have hiff : ∀ k s, (∃ t, run.tasks.get? k = some t ∧ t.status = s) ↔
      ∃ t, st.run.tasks.get? k = some t ∧ t.status = s := by
    intro k s
    rw [← Option.map_eq_some_iff, ← Option.map_eq_some_iff, hsame]
  exact h.with_run run (fun k => hiff k _) fun k t ht hs => (hiff k _).mpr ⟨t, ht, hs⟩

theorem renew_status (t : TaskRun) (w : WorkerID) (d timestamp : Int) :
    (t.renew w d timestamp).status = t.status := by
  rcases renew_cases t w d timestamp with heq | ⟨l, -, -, -, -, heq⟩ <;> rw [heq]

theorem recordWorkerHeartbeat_status {run run' : WorkflowRun} {d : Int}
    (h : run.recordWorkerHeartbeat w d now = .ok run') (k : TaskID) :
    (run'.tasks.get? k).map TaskRun.status = (run.tasks.get? k).map TaskRun.status := by
  obtain ⟨-, -, rfl⟩ := recordWorkerHeartbeat_ok h
  rw [KeyMap.get?_map, Option.map_map]
  exact Option.map_congr fun t _ => renew_status t w d _

/-- The invariant is back once a change of the run is saved. -/
theorem Desk.scheduling (hd : Desk config runID g st) (hb : Books config runID g st.run)
    (hu : ∀ k t, st.run.tasks.get? k = some t → t.status ≠ .failed) :
    Scheduling config runID { st with run := st.run.nextVersion } (g.saved st.run) :=
  ⟨hb.saved, ⟨hd.completed, hd.ready, hd.pending, hd.slots, hd.spawned, hd.workers⟩,
    hb.tracked.saved, hu⟩

theorem wp_handleHeartbeat (h : Working config runID st g) (w : WorkerID) :
    (handleHeartbeat config st w).wp (schedulerContract config runID)
      (Step.Holds (Scheduling config runID) Ending) g := by
  unfold handleHeartbeat
  split
  · exact h.toScheduling
  · split
    · exact h.toScheduling
    · refine wp_call_of trivial fun now => ?_
      have hq := Quiet.now config runID g now
      cases hbeat : st.run.recordWorkerHeartbeat w config.leaseDuration now with
      | error e => exact (h.quiet hq).wp_failWith _
      | ok run =>
        have happly : st.run.apply (.recordWorkerHeartbeat w config.leaseDuration now) = run := by
          rw [WorkflowRun.apply, hbeat]
          rfl
        have hb := happly ▸
          (h.books.quiet hq).apply (.recordWorkerHeartbeat w config.leaseDuration now) rfl
        have hstatus := recordWorkerHeartbeat_status hbeat
        have hd := (h.desk.quiet hq).same_status run hstatus
        refine Prog.wp_seq (wp_saveRun hb.tracked _) ?_
        rintro (e | run') g' hsave
        · rw [hsave]
          exact wp_abandon id _ _
        · obtain ⟨rfl, rfl⟩ := hsave
          have hsched : Scheduling config runID { st with run := run.nextVersion }
              ((g.note config runID .now now).saved run) := by
            refine hd.scheduling hb fun k t ht hs => ?_
            obtain ⟨u, hu, hus⟩ := Option.map_eq_some_iff.mp
              ((hstatus k).symm.trans (Option.map_eq_some_iff.mpr ⟨t, ht, hs⟩))
            exact h.unfailed k u hu hus
          cases st.activeDeliveries.get? w with
          | none => exact hsched
          | some delivery =>
            refine wp_call_of trivial fun answer => ?_
            rcases answer with e | _
            · exact wp_abandon id _ _
            · exact hsched

theorem wp_handleLost (h : Working config runID st g) (w : WorkerID) (slot : Nat) :
    (handleLost config st w slot).wp (schedulerContract config runID)
      (Step.Holds (Scheduling config runID) Ending) g := by
  unfold handleLost
  split
  · have hd : Desk config runID g
        { st with activeDeliveries := st.activeDeliveries.erase w } :=
      ⟨h.desk.completed, h.desk.ready, h.desk.pending, h.desk.slots, h.desk.spawned,
        h.desk.workers⟩
    refine Prog.wp_seq (wp_replaceWorker hd h.books.id w) ?_
    rintro st' g' ⟨⟨l, roster, staff, rfl⟩, hrun, hd'⟩
    have hrun : st'.run = st.run := hrun
    exact ⟨hrun ▸ h.books.respawned l roster staff, hd', hrun ▸ h.current, hrun ▸ h.unfailed⟩
  · exact h.toScheduling

theorem wp_handleBrokerError (h : Working config runID st g) (hbad : ¬g.clean) (w : WorkerID)
    (slot : Nat) (err : GoString) :
    (handleBrokerError st w slot err).wp (schedulerContract config runID)
      (Step.Holds (Scheduling config runID) Ending) g := by
  unfold handleBrokerError
  split
  · exact h.toScheduling
  · exact wp_abandon hbad _ _

/-! ## Results -/

def Ledger.took (g : Ledger) (r : BrokerTaskResult) : Ledger :=
  { g with outstanding := g.outstanding.filter (· ≠ (r.workerID, r.attemptID)) }

/-- The result is of attempt `n`, for the worker it was given to. -/
structure Reported (runID : RunID) (run : WorkflowRun) (n : Int) (r : BrokerTaskResult) :
    Prop where
  taskRun : r.taskRunID = taskRunIDFor runID r.taskID
  attempt : r.attemptID = attemptIDFor (taskRunIDFor runID r.taskID) n
  delivery : r.delivery.message.id = r.attemptID
  given : ∃ t, run.tasks.get? r.taskID = some t ∧ t.GivenTo n r.workerID

section

variable {run run' : WorkflowRun} {r : BrokerTaskResult} {n : Int}

theorem Books.reported (h : Books config runID g run)
    (hr : ∃ p ∈ g.jobs, r = taskResult p.1 p.2 r.output r.err) : ∃ n, Reported runID run n r := by
  obtain ⟨p, hp, heq⟩ := hr
  obtain ⟨k, n, t, ht, hgiven, hjob⟩ := h.jobs p hp
  have htask : r.taskID = k := by rw [heq]; exact hjob.task
  have hattempt : r.attemptID = p.2.request.attemptID := by rw [heq]; rfl
  have hworker : r.workerID = p.1.workerID := by rw [heq]; rfl
  subst htask
  refine ⟨n, ?_, hattempt.trans hjob.attempt, ?_, t, ht, hworker ▸ hgiven⟩
  · rw [← hjob.taskRun, heq]
    rfl
  · rw [hattempt, ← hjob.delivery, heq]
    rfl

theorem runsUnder_of_lease {k : TaskID} {t : TaskRun} (hi : Identified runID k t)
    (hl : t.leasedTo = some w) :
    t.runsUnder (taskRunIDFor runID k) w t.currentAttemptID = true := by
  obtain ⟨l, hl, hw⟩ := Option.map_eq_some_iff.mp hl
  obtain ⟨hs, ha, -⟩ := hi.lease l hl
  simp [TaskRun.runsUnder, hl, hs, hi.taskRun, ha, hw]

/-- A task leased to the worker of a result for its attempt is the task of the result. -/
theorem Reported.lease_of (h : Reported runID run n r) (hi : ∀ k t, run.tasks.get? k = some t →
    Identified runID k t) {k : TaskID} {t : TaskRun} (ht : run.tasks.get? k = some t)
    (hl : t.leasedTo = some r.workerID) (ha : t.currentAttemptID = r.attemptID) :
    k = r.taskID ∧ t.runsUnder r.taskRunID r.workerID r.attemptID = true := by
  have hid := hi k t ht
  obtain ⟨l, hlease, -⟩ := Option.map_eq_some_iff.mp hl
  have hcount := hid.running (hid.lease l hlease).1
  have hk : k = r.taskID := by
    have hsame := (hid.attempt_ne_nil hcount).symm.trans (ha.trans h.attempt)
    exact (attemptID_injective hsame).2.1
  subst hk
  refine ⟨rfl, ?_⟩
  rw [h.taskRun, ← ha]
  exact runsUnder_of_lease hid hl

/-- What recording a result did to the run. -/
structure Concluded (r : BrokerTaskResult) (n : Int) (outcome : CompletionOutcome)
    (run run' : WorkflowRun) : Prop where
  past : ∃ t, run'.tasks.get? r.taskID = some t ∧ t.Past n
  ignored : outcome = .ignored → run' = run
  succeeded : ∀ k, (∃ t, run'.tasks.get? k = some t ∧ t.status = .succeeded) ↔
    outcome = .succeeded ∧ k = r.taskID ∨ ∃ t, run.tasks.get? k = some t ∧ t.status = .succeeded
  ready : ∀ k t, run.tasks.get? k = some t → t.status = .ready → run'.tasks.get? k = some t
  unfailed : outcome ≠ .failed → ∀ k t, run'.tasks.get? k = some t →
    run.tasks.get? k = some t ∨ t.status ≠ .failed
  failed : outcome = .failed → ∃ t, run'.tasks.get? r.taskID = some t ∧ t.status = .failed
  leases : ∀ k t, run'.tasks.get? k = some t → t.leasedTo = some r.workerID →
    t.currentAttemptID ≠ r.attemptID

theorem Reported.concluded (h : Reported runID run n r) (hid : run.id = runID)
    (hc : Coherent run) {outcome : CompletionOutcome}
    (hok : run.completeTaskAttempt r.taskID r.taskRunID r.workerID r.attemptID r.output r.err now =
      .ok (run', outcome)) : Concluded r n outcome run run' := by
  have hi : ∀ k t, run.tasks.get? k = some t → Identified runID k t := hid ▸ hc.tasks
  obtain ⟨t, ht, hgiven⟩ := h.given
  have hit := hi _ t ht
  rcases completeTaskAttempt_cases run r.taskID r.taskRunID r.workerID r.attemptID r.output r.err
    now with ⟨hnone, -⟩ | ⟨t₀, ht₀, ⟨hno, heq⟩ | ⟨hyes, heq⟩⟩
  · rw [ht] at hnone
    cases hnone
  · rw [ht] at ht₀
    cases ht₀
    rw [heq] at hok
    cases hok
    have hlease : ∀ k u, run.tasks.get? k = some u → u.leasedTo = some r.workerID →
        u.currentAttemptID ≠ r.attemptID := by
      intro k u hu hl ha
      obtain ⟨rfl, hruns⟩ := h.lease_of hi hu hl ha
      rw [ht] at hu
      cases hu
      rw [hno] at hruns
      cases hruns
    refine ⟨⟨t, ht, ?_⟩, fun _ => rfl, fun k => by simp, fun _ _ hu _ => hu, fun _ _ _ hu => .inl hu,
      nofun, hlease⟩
    rcases lt_or_eq_of_le hgiven.1 with hlt | hn
    · exact .inl hlt
    · refine .inr ⟨hn, fun hs => hlease _ t ht (hgiven.2 hs hn) ?_⟩
      rw [hit.attempt_ne_nil (hit.running hs), ← hn, h.attempt]
  · rw [ht] at ht₀
    cases ht₀
    rw [heq] at hok
    obtain ⟨rfl, rfl⟩ := Prod.mk.inj (Except.ok.inj hok)
    obtain ⟨hrun, -, ha, -⟩ := runsUnder_running hyes
    have hn : n = t.attemptCount := by
      have hsame := (hit.attempt_ne_nil (hit.running hrun)).symm.trans (ha.trans h.attempt)
      exact (attemptID_injective hsame).2.2.symm
    obtain ⟨hne, hsucc, hfail⟩ := complete_outcome t (run.retryPolicy r.taskID) r.output r.err
      (run.nextTimestamp now)
    have hended := complete_ended t (run.retryPolicy r.taskID) r.output r.err (run.nextTimestamp now)
    generalize t.complete (run.retryPolicy r.taskID) r.output r.err (run.nextTimestamp now) = c at *
    have hself : (run.tasks.insert r.taskID c.1).get? r.taskID = some c.1 :=
      KeyMap.get?_insert_self _ _ _
    have hother : ∀ k, k ≠ r.taskID →
        (run.tasks.insert r.taskID c.1).get? k = run.tasks.get? k :=
      fun k hk => KeyMap.get?_insert_ne _ _ hk
    refine ⟨⟨c.1, hself, .inr ⟨hn.trans hended.attempts.symm, hended.not_running⟩⟩,
      fun hi => absurd hi hne, fun k => ?_, fun k u hu hs => ?_, fun hnf k u hu => ?_,
      fun hf => ⟨c.1, hself, hfail.mp hf⟩, fun k u hu hl ha => ?_⟩
    · by_cases hk : k = r.taskID
      · subst hk
        simp [hself, ht, hrun, hsucc]
      · simp [hother k hk, hk]
    · have hk : k ≠ r.taskID := by
        rintro rfl
        rw [ht] at hu
        cases hu
        rw [hrun] at hs
        cases hs
      exact (hother k hk).trans hu
    · by_cases hk : k = r.taskID
      · subst hk
        cases hself.symm.trans hu
        exact .inr fun hs => hnf (hfail.mpr hs)
      · exact .inl ((hother k hk).symm.trans hu)
    · by_cases hk : k = r.taskID
      · subst hk
        cases hself.symm.trans hu
        rw [TaskRun.leasedTo, hended.lease] at hl
        cases hl
      · exact hk (h.lease_of hi ((hother k hk).symm.trans hu) hl ha).1

theorem Books.took (h : Books config runID g run) {outcome : CompletionOutcome}
    (hok : run.completeTaskAttempt r.taskID r.taskRunID r.workerID r.attemptID r.output r.err now =
      .ok (run', outcome)) (hcon : Concluded r n outcome run run') :
    Books config runID (g.took r) run' := by
  have happly : run.apply (.completeTaskAttempt r.taskID r.taskRunID r.workerID r.attemptID
      r.output r.err now) = run' := by
    rw [WorkflowRun.apply, hok]
    rfl
  have hb : Books config runID g run' := happly ▸ h.apply (.completeTaskAttempt r.taskID r.taskRunID
    r.workerID r.attemptID r.output r.err now) rfl
  refine ⟨⟨hb.tracked.base, hb.tracked.valid, hb.tracked.definition⟩, hb.grounded, hb.id,
    hb.status, hb.published, hb.jobs, fun ht k t w hget hl hw => ?_⟩
  refine List.mem_filter.mpr ⟨hb.leases ht k t w hget hl hw, ?_⟩
  simp only [ne_eq, Prod.mk.injEq, not_and, decide_eq_true_eq]
  rintro rfl
  exact hcon.leases k t hget hl

end

/-- The result is recorded in the run, which may have to be saved. -/
structure Drafted (config : EngineConfig) (runID : RunID) (r : BrokerTaskResult) (n : Int)
    (outcome : CompletionOutcome) (st : Scheduler) (g : Ledger) : Prop where
  books : Books config runID g st.run
  desk : Desk config runID g st
  past : ∃ t, st.run.tasks.get? r.taskID = some t ∧ t.Past n
  unfailed : outcome ≠ .failed → ∀ k t, st.run.tasks.get? k = some t → t.status ≠ .failed
  failed : outcome = .failed → ∃ t, st.run.tasks.get? r.taskID = some t ∧ t.status = .failed

structure Filed (config : EngineConfig) (runID : RunID) (r : BrokerTaskResult) (n : Int)
    (outcome : CompletionOutcome) (st : Scheduler) (g : Ledger) : Prop
    extends Drafted config runID r n outcome st g where
  current : Current g st.run

section

variable {r : BrokerTaskResult} {n : Int} {outcome : CompletionOutcome} {before : WorkflowRun}

theorem wp_saveOutcome (h : Drafted config runID r n outcome st g) (operation : String) :
    (saveOutcome st operation).wp (schedulerContract config runID)
      (Step.Holds (Filed config runID r n outcome) Ending) g := by
  refine Prog.wp_seq (wp_saveRun h.books.tracked _) ?_
  rintro (e | run) g' hsave
  · rw [hsave]
    exact wp_abandon id _ _
  · obtain ⟨rfl, rfl⟩ := hsave
    have hd := h.desk
    exact ⟨⟨h.books.saved, ⟨hd.completed, hd.ready, hd.pending, hd.slots, hd.spawned, hd.workers⟩,
      h.past, h.unfailed, h.failed⟩, h.books.tracked.saved⟩

theorem addReadyTasks_desk : ∀ (tasks : List TaskDefinition) {st : Scheduler},
    Desk config runID g st →
    (∀ task ∈ tasks, ∃ t, st.run.tasks.get? task.id = some t ∧ t.status = .ready) →
    Desk config runID g (st.addReadyTasks tasks) ∧ (st.addReadyTasks tasks).run = st.run
  | [], _, hd, _ => ⟨hd, rfl⟩
  | task :: rest, st, hd, hready => by
    obtain ⟨t, ht, hs⟩ := hready task List.mem_cons_self
    exact addReadyTasks_desk rest (hd.addReady ht hs task) fun task' h' =>
      hready task' (List.mem_cons_of_mem _ h')

/-- The tables count what has succeeded. -/
theorem Desk.completed_eq (h : Desk config runID g st) (hc : Coherent st.run) :
    st.completed = completedTaskIDs st.run :=
  KeyMap.ext_contains fun k => (h.completed k).trans (mem_completedTaskIDs hc.tasks).symm

theorem Desk.marked (h : Desk config runID g st) {run : WorkflowRun}
    (hm : MarkedReady st.run run) : Desk config runID g { st with run := run } := by
  refine h.with_run run (fun k => ⟨?_, ?_⟩) fun k t ht hs => ?_
  · rintro ⟨t, ht, hs⟩
    rcases hm.origin k t ht with ht | hr
    · exact ⟨t, ht, hs⟩
    · rw [hs] at hr
      cases hr
  · rintro ⟨t, ht, hs⟩
    exact ⟨t, hm.kept k t ht (by rw [hs]; nofun), hs⟩
  · exact ⟨t, hm.kept k t ht (by rw [hs]; nofun), hs⟩

/-- Unlocking further tasks after a success. -/
theorem wp_unlock (h : Drafted config runID r n .succeeded st g) (nows : Nat → Int) :
    (match markNewReady st.run st.run.definition st.completed nows with
      | (run, .error e) =>
        failWith { st with run := run } (ascii "unlock dependent tasks: " ++ e.text)
      | (run, .ok newReady) =>
        saveOutcome (({ st with run := run } : Scheduler).addReadyTasks newReady)
          "record completion and unlock dependencies").wp (schedulerContract config runID)
      (Step.Holds (Filed config runID r n .succeeded) Ending) g := by
  have hc := h.books.tracked.coherent
  have hall := h.desk.completed_eq hc
  have hb : Books config runID g (markNewReady st.run st.run.definition st.completed nows).1 := by
    rw [hall]
    exact h.books.apply (.markNewReady nows) rfl
  have hpast : ∃ t, (markNewReady st.run st.run.definition st.completed nows).1.tasks.get?
      r.taskID = some t ∧ t.Past n := by
    rw [hall]
    obtain ⟨t, ht, hp⟩ := h.past
    exact (apply_evolves hc (.markNewReady nows)).past hc ht hp
  have htotal : g.tidy → ∃ newReady,
      (markNewReady st.run st.run.definition st.completed nows).2 = .ok newReady := by
    rw [hall]
    exact fun ht => (h.books.tracked.valid ht).sound.markNewReady_total nows
  obtain ⟨hmarked, hready⟩ := markNewReady_marked st.run st.completed nows
  generalize markNewReady st.run st.run.definition st.completed nows = q at *
  obtain ⟨run, e | newReady⟩ := q
  · refine wp_failWith hb.tracked hb.status (fun ht => ?_) _
    obtain ⟨_, hok⟩ := htotal ht
    cases hok
  · obtain ⟨hd, hrun⟩ := addReadyTasks_desk newReady (h.desk.marked hmarked) (hready newReady rfl)
    have hunfailed : ∀ k t, run.tasks.get? k = some t → t.status ≠ .failed := by
      intro k t ht hs
      rcases hmarked.origin k t ht with ht | hr
      · exact h.unfailed nofun k t ht hs
      · rw [hs] at hr
        cases hr
    have hrun : (({ st with run := run } : Scheduler).addReadyTasks newReady).run = run := hrun
    have hdraft : Drafted config runID r n .succeeded
        (({ st with run := run } : Scheduler).addReadyTasks newReady) g := by
      refine ⟨?_, hd, ?_, fun _ => ?_, nofun⟩ <;> rw [hrun]
      · exact hb
      · exact hpast
      · exact hunfailed
    exact wp_saveOutcome hdraft _

/-- The tables after a result that finished nothing. -/
theorem Concluded.desk (hcon : Concluded r n outcome before st.run)
    (hd : Desk config runID g { st with run := before }) (hne : outcome ≠ .succeeded) :
    Desk config runID g st := by
  refine hd.with_run st.run (fun k => ?_) fun k t ht hs => ⟨t, hcon.ready k t ht hs, hs⟩
  rw [hcon.succeeded k]
  simp [hne]

theorem Concluded.completed_desk (hcon : Concluded r n .succeeded before st.run)
    (hd : Desk config runID g { st with run := before }) :
    Desk config runID g { st with completed := st.completed.insert r.taskID () } where
  completed k := by
    rw [KeyMap.contains_insert, hcon.succeeded k]
    exact or_congr (by simp) (hd.completed k)
  ready k hk := by
    obtain ⟨t, ht, hs⟩ := hd.ready k hk
    exact ⟨t, hcon.ready k t ht hs, hs⟩
  pending := hd.pending
  slots := hd.slots
  spawned := hd.spawned
  workers := hd.workers

theorem wp_recordOutcome (hb : Books config runID g st.run)
    (hcon : Concluded r n outcome before st.run)
    (hd : Desk config runID g { st with run := before }) (hcur : Current g before)
    (hu : ∀ k t, before.tasks.get? k = some t → t.status ≠ .failed) :
    (recordOutcome st r outcome).wp (schedulerContract config runID)
      (Step.Holds (Filed config runID r n outcome) Ending) g := by
  have hunfailed : outcome ≠ .failed → ∀ k t, st.run.tasks.get? k = some t → t.status ≠ .failed := by
    intro hne k t ht
    rcases hcon.unfailed hne k t ht with ht | hs
    · exact hu k t ht
    · exact hs
  cases outcome with
  | ignored =>
    exact ⟨⟨hb, hcon.desk hd nofun, hcon.past, hunfailed, hcon.failed⟩, hcon.ignored rfl ▸ hcur⟩
  | succeeded =>
    refine wp_call_of trivial fun nows => ?_
    have hdraft : Drafted config runID r n .succeeded
        { st with completed := st.completed.insert r.taskID () } g :=
      ⟨hb, hcon.completed_desk hd, hcon.past, hunfailed, hcon.failed⟩
    exact wp_unlock hdraft nows
  | retryScheduled =>
    have hdesk := hcon.desk hd nofun
    have hdraft : Drafted config runID r n .retryScheduled
        (if st.isReady r.taskID then st.addReady r.taskID (st.definitionOf r.taskID) else st) g := by
      split
      · rename_i hready
        unfold Scheduler.isReady at hready
        split at hready
        · rename_i t ht
          exact ⟨hb, hdesk.addReady ht (by simpa using hready) _, hcon.past, hunfailed, hcon.failed⟩
        · cases hready
      · exact ⟨hb, hdesk, hcon.past, hunfailed, hcon.failed⟩
    exact wp_saveOutcome hdraft _
  | failed =>
    have hdraft : Drafted config runID r n .failed st g :=
      ⟨hb, hcon.desk hd nofun, hcon.past, hunfailed, hcon.failed⟩
    exact wp_saveOutcome hdraft _

theorem wp_settleResult {run : WorkflowRun} (h : Filed config runID r n outcome st g)
    (hr : Reported runID run n r) :
    (settleResult st r outcome).wp (schedulerContract config runID)
      (Step.Holds (Scheduling config runID) Ending) g := by
  have hneeds : g.needs config runID (.ack r.delivery) :=
    h.current.needs_ack h.books.id (hr.delivery.trans hr.attempt) h.past
  refine Prog.wp_seq (wp_acknowledgeDelivery _ hneeds) ?_
  rintro (_ | e) g₁ ⟨hq₁, hmark₁⟩
  · rw [hr.attempt]
    refine Prog.wp_seq (wp_acknowledgePending (h.desk.quiet hq₁) (h.current.quiet hq₁) h.books.id _
      h.past) ?_
    rintro (_ | e) g₂ ⟨hq₂, hmark₂⟩
    · have hq := hq₁.trans hq₂
      have hb := h.books.quiet hq
      dsimp only
      split
      · rename_i hfailed
        obtain ⟨t, ht, hs⟩ := h.failed hfailed
        exact wp_failWith hb.tracked hb.status (fun _ => ⟨r.taskID, t, ht, by rw [hs]; nofun⟩) _
      · rename_i hne
        exact ⟨hb, (h.desk.quiet hq).settlePending _, h.current.quiet hq, h.unfailed hne⟩
    · exact wp_abandon (hmark₂ (by simp)) _ _
  · exact wp_abandon (hmark₁ (by simp)) _ _

theorem wp_handleResult (h : Working config runID st g)
    (hr : ∃ p ∈ g.jobs, r = taskResult p.1 p.2 r.output r.err) :
    (handleResult st r).wp (schedulerContract config runID)
      (Step.Holds (Scheduling config runID) Ending) (g.took r) := by
  have htracked : Tracked (g.took r) st.run := ⟨h.books.tracked.base, h.books.tracked.valid,
    h.books.tracked.definition⟩
  refine wp_call_of trivial fun contextErr => ?_
  cases contextErr with
  | some e => exact wp_cancelWith htracked h.books.status h.unfailed e
  | none =>
    refine wp_call_of trivial fun now => ?_
    have hq := Quiet.now config runID g now
    have hb := h.books.quiet hq
    have hd := h.desk.quiet hq
    obtain ⟨n, hrep⟩ := hb.reported hr
    cases hok : st.run.completeTaskAttempt r.taskID r.taskRunID r.workerID r.attemptID r.output
        r.err now with
    | error e =>
      exact wp_failWith (htracked.quiet (.now config runID (g.took r) now)) hb.status
        (fun ht => h.unfinished (hq.tidy ht)) _
    | ok q =>
      obtain ⟨run, outcome⟩ := q
      have hcon := hrep.concluded hb.id hb.tracked.coherent hok
      have hcur := h.current.quiet hq
      refine Step.wp_andThen (wp_recordOutcome (hb.took hok hcon) hcon ?_ hcur h.unfailed)
        fun st' g' hfiled => wp_settleResult hfiled hrep
      exact ⟨hd.completed, hd.ready, hd.pending, hd.slots, hd.spawned, hd.workers⟩

end

/-! ## The whole round -/

theorem wp_selectEvent (h : Working config runID st g) :
    (selectEvent config st).wp (schedulerContract config runID)
      (Step.Holds (Scheduling config runID) Ending) g := by
  refine wp_call.mpr ⟨trivial, fun event hevent => ?_⟩
  cases event with
  | claim claim => exact wp_handleClaim (h.take _ claim)
  | heartbeat w => exact wp_handleHeartbeat h w
  | lost w slot => exact wp_handleLost h w slot
  | brokerError w slot err => exact wp_handleBrokerError (h.quiet (.failed g)) id w slot err
  | result r => exact wp_handleResult h hevent
  | timer => exact h.toScheduling
  | done err => exact wp_cancelWith h.books.tracked h.books.status h.unfailed err

/-- A round keeps to the contract, and to the invariant if the loop goes on. -/
theorem wp_schedulerRound (h : Scheduling config runID st g) :
    (schedulerRound config st).wp (schedulerContract config runID)
      (Step.Holds (Scheduling config runID) Ending) g := by
  refine Step.wp_andThen (wp_checkContext h) fun st g h => ?_
  refine Step.wp_andThen (wp_recoverLeases h) fun st g h => ?_
  refine Step.wp_andThen (wp_completeWorkflow h) fun st g h => ?_
  refine Step.wp_andThen (wp_publishReadyTasks h) fun st g h => ?_
  exact Step.wp_andThen (wp_checkStalled h) fun st g h => wp_selectEvent h

end

end ForgeFlow.Execution
