import ForgeFlow.Execution.Plan
import ForgeFlow.Execution.Staff

/-!
# How a scheduler conducts a run

What a scheduler answers for in its saves: a run is saved as failed only with a task
that failed, unless a save failed that only put tasks up for another attempt; and as long
as no worker is started under an ID that a lease names, a lease is extended only for an
attempt the scheduler gave out itself. With it goes the agreement of the scheduler's
tables with the run.
-/

namespace ForgeFlow.Execution

open ForgeFlow.Base ForgeFlow.Workflow

variable {c : EngineCall} {now now' : Int}

/-! ## The contract -/

/-- The task is up for another attempt: unlocked, due for its retry, or taken from a
worker whose lease ran out. -/
def Released (runID : RunID) (t t' : TaskRun) : Prop :=
  t'.status = .ready ∧ (t.status = .pending ∨ t.status = .retryWaiting) ∨
    t.status = .running ∧ (t'.status = .ready ∨ t'.status = .retryWaiting) ∧
      t'.error = leaseExpiredText runID t'.taskID t'.currentAttemptID

/-- The snapshot puts tasks up for another attempt, and records neither a success nor
a failure. -/
structure Releases (s x : WorkflowRunSnapshot) : Prop where
  status : x.status = .running
  unfailed : ∀ t ∈ x.tasks, t.status ≠ .failed
  succeeded : ∀ k t, x.taskMap.get? k = some t → t.status = .succeeded →
    ∃ u, s.taskMap.get? k = some u ∧ u.status = .succeeded
  released : ∃ k t t', s.taskMap.get? k = some t ∧ x.taskMap.get? k = some t' ∧
    Released s.id t t'

structure Conduct where
  books : Ledger
  /-- A save failed that only put tasks up for another attempt. -/
  spoiled : Prop := False
  /-- No worker was started under an ID that a lease of the stored snapshot named. -/
  own : Prop := True

namespace Conduct

/-- No task of the stored snapshot is leased to the worker. -/
def Unleased (g : Conduct) (w : WorkerID) : Prop :=
  ∀ s, g.books.stored = some s → ∀ t ∈ s.tasks, t.leasedTo ≠ some w

/-- The lease is of an attempt that was given to the worker. -/
def Given (g : Conduct) (l : TaskLease) : Prop :=
  ∃ q ∈ g.books.jobs, q.1.workerID = l.workerID ∧ q.2.request.attemptID = l.attemptID

/-- The lease is of a new attempt, or is stored and not of a worker of this scheduler, or
is of an attempt given to its worker. -/
def Accounted (g : Conduct) (t : TaskRun) (l : TaskLease) : Prop :=
  g.books.Holds t.taskID (fun u => u.attemptCount < t.attemptCount ∨
    u.lease = some l ∧ l.workerID ∉ g.books.spawned) ∨ g.Given l

/-- What a call owes; leases count only if the scheduler's worker IDs are its own. -/
def owes (g : Conduct) : EngineCall → Prop
  | .createRun s => s.status ≠ .failed
  | .saveRun s => (s.status = .failed → (∃ t ∈ s.tasks, t.status = .failed) ∨ g.spoiled) ∧
      (g.own → ∀ t ∈ s.tasks, ∀ l, t.lease = some l → g.Accounted t l)
  | .loadRun _ => ¬g.spoiled
  | _ => True

def sees (g : Conduct) : (c : EngineCall) → EngineResult c → Prop
  | .createRun s, .ok _ => s.validate = .ok ()
  | .saveRun s, .ok _ => s.validate = .ok ()
  | .select _, .claim claim => claim.workerID ∈ g.books.spawned
  | _, _ => True

def spoils (g : Conduct) : (c : EngineCall) → EngineResult c → Prop
  | .saveRun x, .error _ => ∃ s, g.books.stored = some s ∧ Releases s x
  | _, _ => False

/-- A run is taken up before any worker is started. -/
def owned (g : Conduct) : EngineCall → Prop
  | .spawnWorker w _ => g.own ∧ g.Unleased w
  | .createRun _ | .loadRun _ => True
  | _ => g.own

def note (config : EngineConfig) (runID : RunID) (g : Conduct) (c : EngineCall)
    (r : EngineResult c) : Conduct where
  books := g.books.note config runID c r
  spoiled := g.spoiled ∨ g.spoils c r
  own := g.owned c

end Conduct

def conductContract (config : EngineConfig) (runID : RunID) :
    Contract EngineCall EngineResult Conduct :=
  Contract.of Conduct.owes (fun g c r => g.books.expects runID c r ∧ g.sees c r)
    (Conduct.note config runID)

/-- Nothing was stored, what was given out or spoiled stays so, and new workers have IDs
of their own. -/
structure Kept (g g' : Conduct) : Prop where
  stored : g'.books.stored = g.books.stored
  jobs : g.books.jobs ⊆ g'.books.jobs
  spoiled : g.spoiled → g'.spoiled
  own : g'.own → g.own ∧ ∀ w ∈ g'.books.spawned, w ∈ g.books.spawned ∨ g.Unleased w

theorem Kept.refl (g : Conduct) : Kept g g :=
  ⟨rfl, fun _ h => h, id, fun h => ⟨h, fun _ hw => .inl hw⟩⟩

theorem Kept.trans {g g' g'' : Conduct} (h : Kept g g') (h' : Kept g' g'') : Kept g g'' where
  stored := h'.stored.trans h.stored
  jobs _ hq := h'.jobs (h.jobs hq)
  spoiled hs := h'.spoiled (h.spoiled hs)
  own ho := by
    obtain ⟨ho', hspawned'⟩ := h'.own ho
    obtain ⟨ho, hspawned⟩ := h.own ho'
    refine ⟨ho, fun w hw => ?_⟩
    rcases hspawned' w hw with hw | hw
    · exact hspawned w hw
    · exact .inr fun s hs => hw s (h.stored.trans hs)

/-- A call gives out at most one job and starts at most one worker. -/
theorem note_roster (config : EngineConfig) (runID : RunID) (g : Ledger) (c : EngineCall)
    (r : EngineResult c) : g.jobs ⊆ (g.note config runID c r).jobs ∧
      ∀ w ∈ (g.note config runID c r).spawned, w ∈ g.spawned ∨ ∃ slot, c = .spawnWorker w slot := by
  cases hc : c.staffing with
  | false =>
    obtain ⟨hspawned, hjobs, -⟩ := note_staff (r := r) config runID g hc
    rw [hspawned, hjobs]
    exact ⟨fun _ h => h, fun _ h => .inl h⟩
  | true =>
    cases c with
    | spawnWorker w slot =>
      refine ⟨fun _ h => h, fun w' hw' => ?_⟩
      rcases List.mem_cons.mp hw' with rfl | hw'
      · exact .inr ⟨slot, rfl⟩
      · exact .inl hw'
    | respond _ job =>
      cases job with
      | none => exact ⟨fun _ h => h, fun _ h => .inl h⟩
      | some _ => exact ⟨fun _ h => List.mem_cons_of_mem _ h, fun _ h => .inl h⟩
    | select _ => cases r <;> exact ⟨fun _ h => h, fun _ h => .inl h⟩
    | _ => cases hc

/-- A program that reads and stores no snapshot, and returns as stated. -/
def Inert {α : Type} (p : Engine α) (Q : α → Prop) : Prop :=
  p.Makes (fun c => c.storing = false) Q

section

variable {config : EngineConfig} {runID : RunID} {g g' : Conduct} {α β : Type}

theorem Kept.note (hc : c.storing = false) (r : EngineResult c) :
    Kept g (g.note config runID c r) where
  stored := (note_kept config runID g.books hc).1
  jobs := (note_roster config runID g.books c r).1
  spoiled := .inl
  own ho := by
    have hspawned := (note_roster config runID g.books c r).2
    cases c with
    | spawnWorker id slot =>
      refine ⟨ho.1, fun w hw => (hspawned w hw).imp_right ?_⟩
      rintro ⟨_, heq⟩
      cases heq
      exact ho.2
    | createRun _ => cases hc
    | loadRun _ => cases hc
    | _ =>
      refine ⟨ho, fun w hw => .inl ((hspawned w hw).resolve_right ?_)⟩
      rintro ⟨_, heq⟩
      cases heq

theorem Inert.call {f : EngineResult c → Engine α} {Q : α → Prop}
    (hc : c.storing = false) (hf : ∀ r, Inert (f r) Q) : Inert (call c >>= f) Q :=
  ⟨hc, hf⟩

theorem Inert.seq {p : Engine α} {f : α → Engine β} {P : α → Prop} {Q : β → Prop}
    (hp : Inert p P) (hf : ∀ a, P a → Inert (f a) Q) : Inert (p >>= f) Q := Prog.Makes.bind hf hp

theorem Inert.mono {p : Engine α} {P Q : α → Prop} (hp : Inert p P) (h : ∀ a, P a → Q a) :
    Inert p Q := Prog.Makes.mono (fun _ hc => hc) h hp

theorem owes_inert (hc : c.storing = false) : g.owes c := by
  cases c with
  | createRun _ => cases hc
  | saveRun _ => cases hc
  | loadRun _ => cases hc
  | _ => trivial

theorem Inert.wp {p : Engine α} {Q : α → Prop} (h : Inert p Q) :
    p.wp (conductContract config runID) (fun a g' => Q a ∧ Kept g g') g := by
  refine Prog.Makes.wp (P := fun c : EngineCall => c.storing = false) (I := Kept g) (fun g' c hc hk => ?_) h
    (.refl g)
  exact ⟨owes_inert hc, fun r _ => hk.trans (.note hc r)⟩

/-- What a program ends with under the contract of the ledger it ends with here. -/
theorem wp_both {p : Engine α} {P : α → Ledger → Prop} {Q : α → Conduct → Prop}
    (hp : p.wp (schedulerContract config runID) P g.books)
    (hq : p.wp (conductContract config runID) Q g) :
    p.wp (conductContract config runID) (fun a g' => P a g'.books ∧ Q a g') g :=
  Prog.wp_with Conduct.books (fun _ _ _ hr => hr.1) (fun _ _ _ => rfl) hp hq

/-- A round may end anyhow. -/
def Anyhow (_ : RunOutcome) (_ : Conduct) : Prop := True

theorem wp_round {p : Round} {I : Scheduler → Ledger → Prop} {J : Scheduler → Conduct → Prop}
    (hp : p.wp (schedulerContract config runID) (Step.Holds I Ending) g.books)
    (hq : p.wp (conductContract config runID) (Step.Holds J Anyhow) g) :
    p.wp (conductContract config runID)
      (Step.Holds (fun st g => I st g.books ∧ J st g) Anyhow) g := by
  refine Prog.wp_mono ?_ (wp_both hp hq)
  rintro (st | o) g' ⟨h, h'⟩
  · exact ⟨h, h'⟩
  · trivial

/-! ## Saves -/

/-- The leases of the run are accounted for. -/
def Drift (g : Conduct) (run : WorkflowRun) : Prop :=
  ∀ k t l, run.tasks.get? k = some t → t.lease = some l → g.Accounted t l

variable {run run' : WorkflowRun}

theorem Kept.given (hk : Kept g g') {l : TaskLease} (h : g.Given l) : g'.Given l := by
  obtain ⟨q, hq, hl⟩ := h
  exact ⟨q, hk.jobs hq, hl⟩

/-- Every lease of the run is of a worker that a stored lease names, and of an attempt
given to the worker if the scheduler started it. -/
def Leased (g : Conduct) (run : WorkflowRun) : Prop :=
  ∀ k t l, run.tasks.get? k = some t → t.lease = some l → ¬g.Unleased l.workerID ∧
    (g.own → l.workerID ∈ g.books.spawned → g.Given l)

theorem Leased.kept (h : Leased g run) (hk : Kept g g') : Leased g' run := by
  intro k t l ht hl
  obtain ⟨hnamed, hgiven⟩ := h k t l ht hl
  refine ⟨fun hu => hnamed fun s hs => hu s (hk.stored.trans hs), fun ho hw => ?_⟩
  obtain ⟨ho, hspawned⟩ := hk.own ho
  exact hk.given (hgiven ho ((hspawned _ hw).resolve_right hnamed))

theorem Leased.noneStarted (h : Leased g run) (hc : Coherent run') (hn : NoneStarted run run') :
    Leased g run' := fun k t l ht hl => h k t l (hn k t ht ((hc.tasks k t ht).lease l hl).1) hl

theorem Current.kept (h : Current g.books run) (hk : Kept g g') : Current g'.books run := by
  obtain ⟨s, hs, hst⟩ := h
  exact ⟨s, hk.stored.trans hs, hst⟩

theorem Leased.drift (h : Leased g run) (hcurrent : Current g.books run) (ho : g.own) :
    Drift g run := by
  intro k t l ht hl
  by_cases hw : l.workerID ∈ g.books.spawned
  · exact .inr ((h k t l ht hl).2 ho hw)
  · obtain ⟨s, hs, hst⟩ := id hcurrent
    refine .inl (hcurrent.holds.mpr ⟨t, ?_, .inr ⟨hl, hw⟩⟩)
    rw [(hst.coherent.tasks k t ht).task]
    exact ht

theorem Drift.noneStarted (h : Drift g run) (hc : Coherent run') (hn : NoneStarted run run') :
    Drift g run' := fun k t l ht hl => h k t l (hn k t ht ((hc.tasks k t ht).lease l hl).1) hl

theorem owes_saveRun
    (hfail : run.status = .failed → (∃ k t, run.tasks.get? k = some t ∧ t.status = .failed) ∨ g.spoiled)
    (hd : g.own → Drift g run) : g.owes (.saveRun run.snapshot) := by
  refine ⟨fun hs => (hfail hs).imp_left ?_, fun ho t ht l hl => ?_⟩
  · rintro ⟨k, t, ht, hst⟩
    exact ⟨t, mem_sortedTasks ht, hst⟩
  · obtain ⟨k, hk⟩ := (KeyMap.mem_values_iff _ _).mp ht
    exact hd ho k t l hk hl

/-- How a save comes out. -/
def Saving (g : Conduct) (run : WorkflowRun) : Except GoString WorkflowRun → Conduct → Prop
  | .ok run', g' => run' = run.nextVersion ∧
      (g'.books = g.books.saved run ∧ (g'.own → g.own)) ∧ run.snapshot.validate = .ok ()
  | .error _, g' => Kept g g' ∧ ∀ s, g.books.stored = some s → Releases s run.snapshot → g'.spoiled

theorem conduct_saveRun (h : g.owes (.saveRun run.snapshot)) (operation : String) :
    (saveRun run operation).wp (conductContract config runID) (Saving g run) g := by
  refine Prog.wp_perform_bind.mpr ⟨h, fun r hr => ?_⟩
  cases r with
  | error e =>
    exact ⟨⟨rfl, fun _ hq => hq, .inl, fun ho => ⟨ho, fun _ hw => .inl hw⟩⟩,
      fun s hs hrel => .inr ⟨s, hs, hrel⟩⟩
  | ok stored =>
    obtain ⟨hstored, hvalid⟩ := hr
    have hstored : stored = { run.snapshot with version := run.snapshot.version + 1 } := hstored
    subst hstored
    show Saving g run (persisted run operation _) _
    rw [persisted_ok]
    exact ⟨rfl, ⟨rfl, id⟩, hvalid⟩

/-! ## Ending a run -/

/-- A run that is stopped has no leases, and its failed tasks stay failed. -/
theorem owes_stopped (hc : Coherent run) {target : WorkflowRunStatus} {cause : Option TaskError}
    (hstop : stopRun run target cause now now' = (run', .ok ()))
    (hfail : target = .failed → (∃ k t, run.tasks.get? k = some t ∧ t.status = .failed) ∨ g.spoiled) :
    
    
    g.owes (.saveRun run'.snapshot) := by
  obtain ⟨hstatus, -, htasks⟩ := stopRun_stopped hstop
  refine owes_saveRun (fun hs => (hfail (hstatus.symm.trans hs)).imp_left ?_) fun _ k t' l ht' hl => ?_
  · rintro ⟨k, t, ht, hst⟩
    refine ⟨k, t, ?_, hst⟩
    rw [htasks, ht, Option.map_some, TaskRun.cancel, hst]
    rfl
  · rw [htasks] at ht'
    obtain ⟨t, ht, rfl⟩ := Option.map_eq_some_iff.mp ht'
    rcases cancel_cases t cause (run.nextTimestamp now) with ⟨hfin, heq⟩ | ⟨-, heq⟩ <;> rw [heq] at hl
    · rw [((hc.tasks k t ht).lease l hl).1] at hfin
      cases hfin
    · cases hl

section

variable {J : Scheduler → Conduct → Prop} {st : Scheduler}

theorem conduct_failRun (hc : Coherent run)
    (hfail : (∃ k t, run.tasks.get? k = some t ∧ t.status = .failed) ∨ g.spoiled)
    (cause : GoString) :
    (failRun run cause).wp (conductContract config runID) Anyhow g := by
  refine Prog.wp_perform_bind.mpr ⟨trivial, fun now _ => ?_⟩
  refine Prog.wp_perform_bind.mpr ⟨trivial, fun now' _ => ?_⟩
  rcases hstop : stopRun run .failed (some { text := cause }) now now' with ⟨run', e | _⟩ <;>
    simp only [hstop]
  · trivial
  · have howes : (g.note config runID .now now |>.note config runID .now now').owes
        (.saveRun run'.snapshot) :=
      owes_stopped hc hstop fun _ => hfail.imp_right fun h => Or.inl (Or.inl h)
    refine Prog.wp_seq (conduct_saveRun howes _) ?_
    rintro (e | run'') g' - <;> trivial

theorem conduct_cancelRun (hc : Coherent run) (cause : GoString) :
    (cancelRun run cause).wp (conductContract config runID) Anyhow g := by
  refine Prog.wp_perform_bind.mpr ⟨trivial, fun now _ => ?_⟩
  refine Prog.wp_perform_bind.mpr ⟨trivial, fun now' _ => ?_⟩
  rcases hstop : stopRun run .canceled (some { text := cause }) now now' with ⟨run', e | _⟩ <;>
    simp only [hstop]
  · trivial
  · refine Prog.wp_seq (conduct_saveRun (owes_stopped hc hstop nofun) _) ?_
    rintro (e | run'') g' - <;> trivial

theorem inert_shutdownWorkers : Inert shutdownWorkers fun _ => True :=
  .call rfl fun _ => .call rfl fun _ => trivial

theorem conduct_abandon (st : Scheduler) (err : GoString) :
    (abandon st err).wp (conductContract config runID) (Step.Holds J Anyhow) g :=
  Prog.wp_seq inert_shutdownWorkers.wp fun _ _ _ => trivial

theorem conduct_failWith (hc : Coherent st.run)
    (hfail : (∃ k t, st.run.tasks.get? k = some t ∧ t.status = .failed) ∨ g.spoiled)
    (cause : GoString) :
    (failWith st cause).wp (conductContract config runID) (Step.Holds J Anyhow) g := by
  refine Prog.wp_seq inert_shutdownWorkers.wp fun _ g' hk => ?_
  exact Prog.wp_seq (conduct_failRun hc (hfail.imp_right hk.2.spoiled) cause) fun _ _ h => h

theorem conduct_cancelWith (hc : Coherent st.run) (cause : GoString) :
    (cancelWith st cause).wp (conductContract config runID) (Step.Holds J Anyhow) g := by
  refine Prog.wp_seq inert_shutdownWorkers.wp fun _ g' _ => ?_
  exact Prog.wp_seq (conduct_cancelRun hc cause) fun _ _ h => h

end

/-! ## The tables and the plan -/

/-- The tables of the scheduler agree with the run, and there is a way to go on. -/
structure Plan (st : Scheduler) (g : Conduct) : Prop where
  planned : Planned st.run
  ready : ∀ k t, st.run.tasks.get? k = some t → t.status = .ready → st.ready.contains k = true
  running : ∀ k t, st.run.tasks.get? k = some t → t.status = .running →
    st.inFlight.contains t.currentAttemptID = true
  leases : Leased g st.run
  checked : ∀ s, g.books.stored = some s → s.validate = .ok ()

/-- Nothing changed that the plan speaks of. -/
structure Restaffing (st st' : Scheduler) : Prop where
  run : st'.run = st.run
  ready : st'.ready = st.ready
  inFlight : st'.inFlight = st.inFlight

section

variable {st st' st'' : Scheduler}

theorem Plan.kept (h : Plan st g) (hk : Kept g g') :
    Plan st g' where
  planned := h.planned
  ready := h.ready
  running := h.running
  leases := h.leases.kept hk
  checked s hs := h.checked s (by rw [← hk.stored]; exact hs)

theorem Restaffing.refl (st : Scheduler) : Restaffing st st := ⟨rfl, rfl, rfl⟩

theorem Restaffing.trans (h : Restaffing st st') (h' : Restaffing st' st'') :
    Restaffing st st'' :=
  ⟨h'.run.trans h.run, h'.ready.trans h.ready, h'.inFlight.trans h.inFlight⟩

theorem Plan.restaffed (h : Plan st g) (hr : Restaffing st st') : Plan st' g := by
  obtain ⟨hrun, hready, hinFlight⟩ := hr
  refine ⟨hrun ▸ h.planned, ?_, ?_, hrun ▸ h.leases, h.checked⟩
  · rw [hrun, hready]
    exact h.ready
  · rw [hrun, hinFlight]
    exact h.running

/-- A lease that was saved is stored. -/
theorem not_unleased_saved (hbooks : g'.books = g.books.saved run) {k : TaskID} {t : TaskRun}
    {l : TaskLease} (ht : run.tasks.get? k = some t) (hl : t.lease = some l) :
    ¬g'.Unleased l.workerID := by
  intro hu
  refine hu run.snapshot.next (by rw [hbooks]; rfl) t (mem_sortedTasks ht) ?_
  rw [TaskRun.leasedTo, hl]
  rfl

theorem Leased.saved (h : Leased g run) (hbooks : g'.books = g.books.saved run ∧ (g'.own → g.own)) :
    Leased g' run.nextVersion := by
  intro k t l ht hl
  refine ⟨not_unleased_saved hbooks.1 ht hl, fun ho hw => ?_⟩
  unfold Conduct.Given
  rw [hbooks.1] at hw ⊢
  exact (h k t l ht hl).2 (hbooks.2 ho) hw

/-- A plan that is saved stays one. -/
theorem Plan.saved (h : Plan st g) (hbooks : g'.books = g.books.saved st.run ∧ (g'.own → g.own))
    (hvalid : st.run.snapshot.validate = .ok ()) :
    Plan { st with run := st.run.nextVersion } g' where
  planned := h.planned.still (.nextVersion st.run)
  ready := h.ready
  running := h.running
  leases := h.leases.saved hbooks
  checked s hs := by
    rw [hbooks.1] at hs
    cases hs
    exact WorkflowRunSnapshot.validate_next hvalid

theorem inert_spawnWorker (st : Scheduler) (slot : Nat) :
    Inert (st.spawnWorker config slot) (Restaffing st) := .call rfl fun _ => ⟨rfl, rfl, rfl⟩

theorem inert_replaceWorker (st : Scheduler) (w : WorkerID) :
    Inert (st.replaceWorker config w) (Restaffing st) := by
  unfold Scheduler.replaceWorker
  split
  · exact Restaffing.refl st
  · split
    · exact Restaffing.refl st
    · exact .call rfl fun _ => (inert_spawnWorker _ _).mono fun st' h =>
        ⟨h.run, h.ready, h.inFlight⟩

theorem inert_replaceRecovered (st : Scheduler) (w : WorkerID) :
    Inert (replaceRecovered config st w) (Restaffing st) := by
  unfold replaceRecovered
  split
  · exact Restaffing.refl st
  · exact inert_replaceWorker st w

theorem inert_spawnWorkers : ∀ (slots : List Nat) (st : Scheduler),
    Inert (st.spawnWorkers config slots) (Restaffing st)
  | [], st => Restaffing.refl st
  | slot :: rest, st => (inert_spawnWorker st slot).seq fun st' h =>
    (inert_spawnWorkers rest st').mono fun _ h' => h.trans h'

theorem inert_acknowledgeDelivery (r : RunID) (d : Delivery) :
    Inert (acknowledgeDelivery r d) fun _ => True := by
  refine .call rfl fun answer => ?_
  cases answer with
  | ok _ => trivial
  | error _ => exact .call rfl fun _ => trivial

theorem inert_acknowledgePendingClaims (r : RunID) : ∀ claims : List WorkerClaim,
    Inert (acknowledgePendingClaims r claims) fun _ => True
  | [] => trivial
  | claim :: rest => (inert_acknowledgeDelivery r claim.delivery).seq fun err _ => by
    cases err with
    | some _ => trivial
    | none => exact .call rfl fun _ => inert_acknowledgePendingClaims r rest

/-! ## The head of a round -/

theorem inert_acknowledgeRecoveries : ∀ (recoveries : List LeaseRecovery) (st : Scheduler),
    Inert (acknowledgeRecoveries recoveries st) fun answer =>
      ∀ st', answer = .ok st' → Restaffing st st'
  | [], st => fun st' h => by
    cases h
    exact .refl st
  | r :: rest, st => (inert_acknowledgePendingClaims _ _).seq fun err _ => by
    cases err with
    | some _ => exact nofun
    | none =>
      refine (inert_acknowledgeRecoveries rest _).mono fun answer h st' hst' => ?_
      obtain ⟨hrun, hready, hinFlight⟩ := h st' hst'
      exact ⟨hrun, hready, hinFlight⟩

/-- The tables after recoveries were noted. -/
structure Noted (recoveries : List LeaseRecovery) (st st' : Scheduler) : Prop where
  run : st'.run = st.run
  ready : ∀ k, st.ready.contains k = true → st'.ready.contains k = true
  retried : ∀ r ∈ recoveries, r.outcome = .retryScheduled → st.isReady r.taskID = true →
    st'.ready.contains (st.definitionOf r.taskID).id = true
  inFlight : ∀ a, st.inFlight.contains a = true → (∀ r ∈ recoveries, r.attemptID ≠ a) →
    st'.inFlight.contains a = true

/-- One recovery is noted before the others. -/
theorem Noted.cons {r : LeaseRecovery} {rest : List LeaseRecovery} {st₁ : Scheduler}
    (h₁ : Restaffing { st with inFlight := st.inFlight.erase r.attemptID } st₁)
    (h : Noted rest st' st'') (hrun : st'.run = st₁.run) (hinFlight : st'.inFlight = st₁.inFlight)
    (hready : ∀ k, st₁.ready.contains k = true → st'.ready.contains k = true)
    (hretried : r.outcome = .retryScheduled → st.isReady r.taskID = true →
      st'.ready.contains (st.definitionOf r.taskID).id = true) :
    Noted (r :: rest) st st'' := by
  obtain ⟨hrun₁, hready₁, hinFlight₁⟩ := h₁
  have hsame : st'.run = st.run := hrun.trans hrun₁
  refine ⟨h.run.trans hsame, fun k hk => h.ready k (hready k (by rw [hready₁]; exact hk)),
    fun r' hr' hout hst => ?_, fun a ha hne => ?_⟩
  · rcases List.mem_cons.mp hr' with rfl | hr'
    · exact h.ready _ (hretried hout hst)
    · have hdef : st'.definitionOf r'.taskID = st.definitionOf r'.taskID := by
        rw [Scheduler.definitionOf, hsame, Scheduler.definitionOf]
      rw [← hdef]
      refine h.retried r' hr' hout ?_
      rw [Scheduler.isReady, hsame]
      exact hst
  · refine h.inFlight a ?_ fun r' hr' => hne r' (List.mem_cons_of_mem _ hr')
    rw [hinFlight, hinFlight₁]
    exact (KeyMap.contains_erase _ _ _).mpr ⟨(hne r List.mem_cons_self).symm, ha⟩

theorem inert_noteRecoveries : ∀ (recoveries : List LeaseRecovery) (st : Scheduler)
    (failure : Option GoString),
    Inert (noteRecoveries config recoveries st failure) fun q => Noted recoveries st q.1
  | [], st, _ => ⟨rfl, fun _ hk => hk, nofun, fun _ ha _ => ha⟩
  | r :: rest, st, failure => (inert_replaceRecovered _ r.workerID).seq fun st₁ h₁ => by
    have hrun : st₁.run = st.run := h₁.run
    by_cases hretry : r.outcome = .retryScheduled
    · simp only [hretry, if_true]
      refine (inert_noteRecoveries rest _ failure).mono fun q hq => ?_
      split at hq
      · refine .cons h₁ hq rfl rfl (fun k hk => ?_) fun _ _ => ?_
        · exact (KeyMap.contains_insert _ _ _ _).mpr (.inr hk)
        · refine (KeyMap.contains_insert _ _ _ _).mpr (.inl ?_)
          rw [Scheduler.definitionOf, Scheduler.definitionOf, hrun]
      · rename_i hno
        refine .cons h₁ hq rfl rfl (fun k hk => hk) fun _ hst => absurd ?_ hno
        rw [Scheduler.isReady, hrun]
        exact hst
    · simp only [hretry, if_false]
      exact (inert_noteRecoveries rest st₁ _).mono fun q hq =>
        .cons h₁ hq rfl rfl (fun k hk => hk) fun hout => absurd hout hretry

/-- Taking up tasks changes only the ready ones. -/
theorem addReady_tables {α : Type} (key : α → TaskID) (f : Scheduler → α → TaskDefinition) :
    ∀ (as : List α) (st : Scheduler),
      (as.foldl (fun st a => st.addReady (key a) (f st a)) st).run = st.run ∧
      (as.foldl (fun st a => st.addReady (key a) (f st a)) st).inFlight = st.inFlight ∧
      ∀ k, (as.foldl (fun st a => st.addReady (key a) (f st a)) st).ready.contains k = true ↔
        k ∈ as.map key ∨ st.ready.contains k = true
  | [], st => ⟨rfl, rfl, fun k => by simp⟩
  | a :: rest, st => by
    obtain ⟨hrun, hinFlight, hready⟩ := addReady_tables key f rest (st.addReady (key a) (f st a))
    refine ⟨hrun, hinFlight, fun k => (hready k).trans ?_⟩
    rw [Scheduler.addReady, KeyMap.contains_insert, List.map_cons, List.mem_cons]
    tauto

theorem conduct_checkContext (h : Scheduling config runID st g.books)
    (hp : Plan st g) :
    (checkContext st).wp (conductContract config runID)
      (Step.Holds Plan Anyhow) g := by
  refine Prog.wp_perform_bind.mpr ⟨trivial, fun contextErr _ => ?_⟩
  cases contextErr with
  | none => exact hp.kept (.note rfl _)
  | some e => exact conduct_cancelWith h.books.tracked.coherent e

/-- The tables after the sweeps of a round. -/
theorem Plan.swept (hp : Plan st g) (hb : Books config runID g.books st.run)
    (hn : Noted (st.run.recoverExpiredLeases now).2 { st with
      run := ((st.run.recoverExpiredLeases now).1.promoteDueRetries now').1 } st') :
    Plan
      (((st.run.recoverExpiredLeases now).1.promoteDueRetries now').2.foldl
        (fun st k => st.addReady k (st.definitionOf k)) st') g := by
  have hc := hb.tracked.coherent
  have hb₁ := hb.apply (.recoverExpiredLeases now) rfl
  have hb₂ := hb₁.apply (.promoteDueRetries now') rfl
  have hnone : NoneStarted st.run ((st.run.recoverExpiredLeases now).1.promoteDueRetries now').1 :=
    (recoverExpiredLeases_noneStarted hc now).trans (promoteDueRetries_noneStarted _ now')
  obtain ⟨hrun, hinFlight, hready⟩ :=
    addReady_tables id (fun st k => st.definitionOf k)
      ((st.run.recoverExpiredLeases now).1.promoteDueRetries now').2 st'
  simp only [id_eq, List.map_id] at hrun hinFlight hready
  have hrun' := hrun.trans hn.run
  refine ⟨?_, fun k t ht hs => ?_, fun k t ht hs => ?_, ?_, hp.checked⟩
  · rw [hrun']
    exact hp.planned.still ((recoverExpiredLeases_still hc now).trans (promoteDueRetries_still _ now'))
  · rw [hrun'] at ht
    rw [hready]
    rcases swept_ready hc ht hs with hget | ⟨r, hr, rfl, hout⟩ | hmem
    · exact .inr (hn.ready k (hp.ready k t hget hs))
    · right
      have hid := hb₂.grounded.defined r.taskID t ht
      have hretried := hn.retried r hr hout (by
        rw [Scheduler.isReady, ht]
        exact decide_eq_true hs)
      exact hid ▸ hretried
    · exact .inl hmem
  · rw [hrun'] at ht
    rw [hinFlight]
    refine hn.inFlight _ (hp.running k t (hnone k t ht hs) hs) fun r hr ha => ?_
    -- a recovered attempt does not run any more
    obtain ⟨u, u', hu, hus, hattempt, hu', hended, -⟩ := mem_recoveries hc hr
    have hget := promoteDueRetries_noneStarted _ now' k t ht hs
    have hi := hc.tasks _ u hu
    have hit := hc.tasks k t (hnone k t ht hs)
    rw [hattempt, hi.attempt_ne_nil (hi.running hus), hit.attempt_ne_nil (hit.running hs)] at ha
    obtain ⟨-, rfl, -⟩ := attemptID_injective ha
    rw [hget] at hu'
    cases hu'
    exact hended.not_running hs
  · rw [hrun']
    exact hp.leases.noneStarted hb₂.tracked.coherent hnone

/-- The sweeps put a task up for another attempt, unless they did nothing. -/
theorem swept_released (hc : Coherent run)
    (hall : ∀ r ∈ (run.recoverExpiredLeases now).2, r.outcome = .retryScheduled)
    (hne : ¬((run.recoverExpiredLeases now).2 = [] ∧
      ((run.recoverExpiredLeases now).1.promoteDueRetries now').2 = [])) :
    ∃ k t t', run.tasks.get? k = some t ∧
      ((run.recoverExpiredLeases now).1.promoteDueRetries now').1.tasks.get? k = some t' ∧
      Released run.id t t' := by
  by_cases hnil : (run.recoverExpiredLeases now).2 = []
  · obtain ⟨k, hk⟩ := List.exists_mem_of_ne_nil _ fun hp => hne ⟨hnil, hp⟩
    obtain ⟨t, ht, hs, ht'⟩ := mem_promoted hk
    rw [recoverExpiredLeases_idle hnil] at ht
    exact ⟨k, t, _, ht, ht', .inl ⟨rfl, .inr hs⟩⟩
  · obtain ⟨r, hr⟩ := List.exists_mem_of_ne_nil _ hnil
    obtain ⟨t, t₁, ht, hs, ht₁, herror, hstatus⟩ := recovered_task hc hr
    obtain ⟨t₂, ht₂, -⟩ := (@promoteDueRetries_evolves (fun _ => {})
      (run.recoverExpiredLeases now).1 now').moves _ t₁ ht₁
    refine ⟨r.taskID, t, t₂, ht, ht₂, .inr ⟨hs, ?_⟩⟩
    rcases promoted_task ht₁ ht₂ with rfl | ⟨-, -, rfl⟩
    · exact ⟨hstatus (hall r hr), herror⟩
    · exact ⟨.inl rfl, herror⟩

theorem snapshot_taskMap (hc : Coherent run) : run.snapshot.taskMap = run.tasks :=
  (Stored.of_saved hc 0).tasks

theorem Current.releases {before : WorkflowRun} (h : Current g.books before) (hc : Coherent run)
    (hs : run.status = .running)
    (hunfailed : ∀ k t, run.tasks.get? k = some t → t.status ≠ .failed)
    (hsucceeded : ∀ k, (∃ t, run.tasks.get? k = some t ∧ t.status = .succeeded) →
      ∃ t, before.tasks.get? k = some t ∧ t.status = .succeeded)
    (hreleased : ∃ k t t', before.tasks.get? k = some t ∧ run.tasks.get? k = some t' ∧
      Released before.id t t') {s : WorkflowRunSnapshot} (hstored : g.books.stored = some s) :
    Releases s run.snapshot := by
  obtain ⟨s', hs', hst⟩ := h
  rw [hstored] at hs'
  cases hs'
  refine ⟨hs, fun t ht => ?_, fun k t ht hst' => ?_, ?_⟩
  · obtain ⟨k, hk⟩ := (KeyMap.mem_values_iff _ _).mp ht
    exact hunfailed k t hk
  · rw [snapshot_taskMap hc] at ht
    rw [hst.tasks]
    exact hsucceeded k ⟨t, ht, hst'⟩
  · rw [snapshot_taskMap hc, hst.tasks, hst.id]
    exact hreleased

/-- When the sweeps did something, a task has failed for good or tasks were only put up again. -/
theorem Swept.failed_or_releases
    (h : Swept config runID g.books run
      ((run.recoverExpiredLeases now).1.promoteDueRetries now').1 (run.recoverExpiredLeases now).2
      ((run.recoverExpiredLeases now).1.promoteDueRetries now').2)
    (hcurrent : Current g.books run) (hc : Coherent run)
    (hne : ¬((run.recoverExpiredLeases now).2 = [] ∧
      ((run.recoverExpiredLeases now).1.promoteDueRetries now').2 = [])) :
    (∃ k t, ((run.recoverExpiredLeases now).1.promoteDueRetries now').1.tasks.get? k = some t ∧
      t.status = .failed) ∨ ∀ s, g.books.stored = some s →
        Releases s ((run.recoverExpiredLeases now).1.promoteDueRetries now').1.snapshot := by
  by_cases hall : ∀ r ∈ (run.recoverExpiredLeases now).2, r.outcome = .retryScheduled
  · exact .inr fun s hs => hcurrent.releases h.books.tracked.coherent h.books.status
      (h.unfailed hall) (fun k => (h.succeeded k).mp) (swept_released hc hall hne) hs
  · push Not at hall
    obtain ⟨r, hr, hout⟩ := hall
    exact .inl ⟨r.taskID, swept_failed hc hr hout⟩

theorem conduct_saveRecoveries {before : WorkflowRun} {recoveries : List LeaseRecovery}
    {promoted : List TaskID} (h : Caught config runID g.books before recoveries promoted st)
    (hp : Plan st g) (hd : g.own → Drift g st.run)
    (hfail : ¬(recoveries = [] ∧ promoted = []) →
      (∃ k t, st.run.tasks.get? k = some t ∧ t.status = .failed) ∨
        ∀ s, g.books.stored = some s → Releases s st.run.snapshot) :
    (saveRecoveries st recoveries promoted).wp (conductContract config runID)
      (Step.Holds (fun st' g' => Plan st' g' ∧
        st'.run.tasks = st.run.tasks) Anyhow) g := by
  have hb := h.swept.books
  unfold saveRecoveries
  split
  · exact ⟨hp, rfl⟩
  · rename_i hsome
    refine Prog.wp_seq (conduct_saveRun (owes_saveRun (by rw [hb.status]; nofun) hd) _) ?_
    rintro (e | run) g' hsave
    · obtain ⟨s, hs, -⟩ := h.current
      exact conduct_failWith hb.tracked.coherent
        ((hfail hsome).imp_right fun hrel => hsave.2 s hs (hrel s hs)) e
    · obtain ⟨rfl, hbooks, hvalid⟩ := hsave
      refine Prog.wp_seq (inert_acknowledgeRecoveries recoveries _).wp ?_
      rintro (e | st') g'' ⟨hst', hk⟩
      · exact conduct_abandon _ _
      · have hr := hst' st' rfl
        exact ⟨((hp.saved hbooks hvalid).kept hk).restaffed hr, by rw [hr.run]; rfl⟩

theorem conduct_recoverLeases (h : Scheduling config runID st g.books)
    (hp : Plan st g) :
    (recoverLeases config st).wp (conductContract config runID)
      (Step.Holds Plan Anyhow) g := by
  refine Prog.wp_perform_bind.mpr ⟨trivial, fun now _ => ?_⟩
  refine Prog.wp_perform_bind.mpr ⟨trivial, fun now' _ => ?_⟩
  have hk : Kept g ((g.note config runID .now now).note config runID .now now') :=
    .trans (.note rfl now) (.note rfl now')
  have hq := (Quiet.now config runID g.books now).trans (Quiet.now config runID _ now')
  have hc := h.books.tracked.coherent
  have hswept := (h.books.quiet hq).swept h.unfailed now now'
  have hdesk := (h.desk.quiet hq).with_run _ hswept.succeeded hswept.ready
  refine Prog.wp_seq (wp_both (wp_noteRecoveries _ none hswept.books hdesk)
    (inert_noteRecoveries _ _ none).wp) ?_
  rintro ⟨st₁, failure⟩ g₁ ⟨⟨⟨⟨l, roster, staff, hl⟩, hrun, hd₁⟩, hfailure⟩, hnoted, hk₁⟩
  have hrun : st₁.run = ((st.run.recoverExpiredLeases now).1.promoteDueRetries now').1 := hrun
  obtain ⟨hrun₂, hd₂⟩ := promote_ready _ hd₁ (hrun ▸ hswept.offered)
  have hplan := ((hp.kept hk).swept (h.books.quiet hq) hnoted).kept hk₁
  have hcurrent : Current g₁.books st.run := h.current.kept (hk.trans hk₁)
  have hcaught : Swept config runID g₁.books st.run
      ((st.run.recoverExpiredLeases now).1.promoteDueRetries now').1
      (st.run.recoverExpiredLeases now).2
      ((st.run.recoverExpiredLeases now).1.promoteDueRetries now').2 := by
    rw [hl]
    exact hswept.quiet (hswept.books.respawned l roster staff)
  have hnone : NoneStarted st.run ((st.run.recoverExpiredLeases now).1.promoteDueRetries now').1 :=
    (recoverExpiredLeases_noneStarted hc now).trans (promoteDueRetries_noneStarted _ now')
  have hdrift := fun ho => (((hp.kept hk).leases.kept hk₁).drift hcurrent ho).noneStarted
    hcaught.books.tracked.coherent hnone
  have hfail := hcaught.failed_or_releases hcurrent hc
  rw [← hrun, ← hrun₂] at hcaught hdrift hfail
  refine Step.wp_andThen (wp_round (wp_saveRecoveries ⟨hcaught, hd₂, hcurrent⟩)
    (conduct_saveRecoveries ⟨hcaught, hd₂, hcurrent⟩ hplan hdrift hfail))
    fun st₂ g₂ ⟨hst, hplan₂, htasks⟩ => ?_
  cases failure with
  | none => exact hplan₂
  | some cause =>
    have hr : ∃ r ∈ (st.run.recoverExpiredLeases now).2, r.outcome ≠ .retryScheduled := by
      by_contra hno
      push Not at hno
      cases hfailure.mpr ⟨rfl, hno⟩
    obtain ⟨r, hr, hout⟩ := hr
    refine conduct_failWith hst.books.tracked.coherent (.inl ⟨r.taskID, ?_⟩) cause
    rw [htasks.trans (congrArg WorkflowRun.tasks (hrun₂.trans hrun))]
    exact swept_failed hc hr hout

/-- A plan with something left to do. -/
structure Ongoing (st : Scheduler) (g : Conduct) : Prop extends Plan st g where
  unfinished : ∃ k t, st.run.tasks.get? k = some t ∧ t.status ≠ .succeeded

theorem conduct_completeWorkflow (h : Scheduling config runID st g.books)
    (hp : Plan st g) :
    (completeWorkflow st).wp (conductContract config runID)
      (Step.Holds Ongoing Anyhow) g := by
  have hall := h.desk.completed_all hp.planned.definition hp.planned.keys
  unfold completeWorkflow
  split
  · refine Prog.wp_seq inert_shutdownWorkers.wp fun _ g' hk => ?_
    refine Prog.wp_perform_bind.mpr ⟨trivial, fun now _ => ?_⟩
    have hl : legalWorkflowTransition st.run.status .succeeded = true := by
      rw [h.books.status]
      rfl
    simp only [transitionWorkflow_legal hl now]
    have hkept : Kept g (g'.note config runID .now now) := hk.2.trans (.note rfl now)
    have howes : (g'.note config runID .now now).owes (.saveRun
        ({ st.run with status := .succeeded, updatedAt := st.run.nextTimestamp now } :
          WorkflowRun).snapshot) :=
      owes_saveRun nofun ((hp.leases.kept hkept).drift (h.current.kept hkept))
    refine Prog.wp_seq (conduct_saveRun howes _) ?_
    rintro (e | run) g'' - <;> trivial
  · rename_i hsome
    refine ⟨hp, ?_⟩
    by_contra hno
    push Not at hno
    exact hsome (hall.mpr hno)

theorem inert_publishTasks : ∀ (keys : List TaskID) (st : Scheduler),
    Inert (publishTasks keys st) fun answer => ∀ st', answer = .ok st' → Restaffing st st'
  | [], st => fun st' h => by
    cases h
    exact .refl st
  | k :: rest, st => by
    unfold publishTasks
    split
    · exact nofun
    · dsimp only
      split
      · exact inert_publishTasks rest st
      · refine .call rfl fun answer => ?_
        cases answer with
        | error _ => exact nofun
        | ok _ =>
          refine (inert_publishTasks rest _).mono fun answer h st' hst' => ?_
          obtain ⟨hrun, hready, hinFlight⟩ := h st' hst'
          exact ⟨hrun, hready, hinFlight⟩

theorem Ongoing.restaffed (h : Ongoing st g) (hr : Restaffing st st') : Ongoing st' g :=
  ⟨h.toPlan.restaffed hr, by rw [hr.run]; exact h.unfinished⟩

theorem conduct_publishReadyTasks (hp : Ongoing st g) :
    (publishReadyTasks st).wp (conductContract config runID)
      (Step.Holds Ongoing Anyhow) g := by
  refine Prog.wp_seq (inert_publishTasks _ st).wp ?_
  rintro (e | st') g' ⟨hst', hk⟩
  · exact conduct_abandon _ _
  · exact Ongoing.restaffed ⟨hp.toPlan.kept hk, hp.unfinished⟩ (hst' st' rfl)

/-- The tasks of a run that was stored by a store that validates. -/
theorem Current.taskRunValid (h : Current g.books run)
    (hchecked : ∀ s, g.books.stored = some s → s.validate = .ok ()) :
    ∃ createdAt, ∀ k t, run.tasks.get? k = some t → TaskRunValid run.id createdAt t := by
  obtain ⟨s, hs, hst⟩ := h
  have hv := (WorkflowRunSnapshot.validate_ok_iff s).mp (hchecked s hs)
  refine ⟨s.createdAt, fun k t ht => ?_⟩
  rw [← hst.tasks] at ht
  obtain ⟨u, hu, -, rfl⟩ := taskMap_mem ht
  rw [← hst.id]
  exact (hv.taskRuns u hu).restored

/-- While something is left to do, the run is not stalled. -/
theorem Ongoing.not_stalled (h : Scheduling config runID st g.books)
    (hp : Ongoing st g) :
    ¬(st.ready.size = 0 ∧ st.inFlight.size = 0 ∧ st.run.nextReliabilityDeadline.2 = false) := by
  rintro ⟨hready, hinFlight, hdeadline⟩
  obtain ⟨k, t, ht, hs | hs | hs⟩ := hp.planned.progress hp.unfinished h.unfailed
  · exact KeyMap.not_contains_of_size hready k (hp.ready k t ht hs)
  · exact KeyMap.not_contains_of_size hinFlight _ (hp.running k t ht hs)
  · obtain ⟨createdAt, hvalid⟩ := h.current.taskRunValid hp.checked
    have hmem : ∀ u ∈ st.run.tasks.values, TaskRunValid st.run.id createdAt u := by
      intro u hu
      obtain ⟨k', hk'⟩ := (KeyMap.mem_values_iff _ _).mp hu
      exact hvalid k' u hk'
    have hfound := (deadlineScan_found st.run.updatedAt st.run.tasks.values 0
      (fun u hu _ l hl => ((hmem u hu).lease l hl).expires) fun u hu => (hmem u hu).retryDeadline).mpr
      (.inr ⟨t, mem_sortedTasks ht, .inr hs⟩)
    rw [WorkflowRun.nextReliabilityDeadline, hfound] at hdeadline
    cases hdeadline

/-- A round up to the point where it looks whether the run is stalled. -/
def roundHead (config : EngineConfig) (st : Scheduler) : Round :=
  Step.andThen (checkContext st) fun st =>
  Step.andThen (recoverLeases config st) fun st =>
  Step.andThen (completeWorkflow st) fun st => publishReadyTasks st

theorem schedulerRound_eq (config : EngineConfig) (st : Scheduler) :
    schedulerRound config st = Step.andThen (roundHead config st) fun st =>
      Step.andThen (checkStalled st) fun st => selectEvent config st := by
  unfold schedulerRound roundHead
  simp only [Step.andThen_assoc]

theorem conduct_roundHead (h : Scheduling config runID st g.books)
    (hp : Plan st g) :
    (roundHead config st).wp (conductContract config runID)
      (Step.Holds (fun st g => Working config runID st g.books ∧
        Ongoing st g) Anyhow) g := by
  refine Step.wp_andThen (wp_round (wp_checkContext h) (conduct_checkContext h hp))
    fun st g ⟨h, hp⟩ => ?_
  refine Step.wp_andThen (wp_round (wp_recoverLeases h) (conduct_recoverLeases h hp))
    fun st g ⟨h, hp⟩ => ?_
  refine Step.wp_andThen (wp_round (wp_completeWorkflow h) (conduct_completeWorkflow h hp))
    fun st g ⟨h, hp⟩ => ?_
  exact wp_round (wp_publishReadyTasks h) (conduct_publishReadyTasks hp)

end

end

end ForgeFlow.Execution
