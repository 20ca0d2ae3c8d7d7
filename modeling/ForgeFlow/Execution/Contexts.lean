import ForgeFlow.Execution.Guarantees

/-!
# The contexts of handlers

A worker stops when its context is done. The handler it runs has another context:
the one the scheduler sent along with the job.
-/

namespace ForgeFlow.Execution

open ForgeFlow.Base ForgeFlow.Workflow

/-- The cancel functions that have been called. -/
def Process.called (process : Process) : CancelFunc → Bool
  | .caller => process.canceled
  | .runWorkers => process.workersCanceled
  | .worker id => (process.workers.get? id).any fun worker => worker.canceled

/-- The context `invokeHandler` is given: that of the job, with a span. -/
def handlerContext (job : TaskJob) : Context CancelFunc := job.context.withValue

section

variable {p : Process} {id : WorkerID} {worker : Worker}

theorem workerContext_done (hw : p.workers.get? id = some worker) :
    (workerContext id).done p.called = (p.canceled || p.workersCanceled || worker.canceled) := by
  simp only [workerContext, runContext, callContext, Context.done, Process.called, hw,
    Option.any_some]
  cases p.canceled <;> cases p.workersCanceled <;> cases worker.canceled <;> rfl

/-- The context of a task is not derived from that of any worker. -/
theorem workerContext_not_descends (id : WorkerID) {context : Context CancelFunc}
    (h : context = taskContext) : ¬(workerContext id).Descends context.withValue := by
  intro hd
  -- canceling the worker alone would have to cancel the task
  have hdone : context.withValue.done (fun f => f = .worker id) = true :=
    hd.done (by simp [workerContext, Context.done])
  rw [h] at hdone
  cases hdone

end

/-- Every job a scheduler has given out carries the context derived from its call's. -/
def Supplied (ledgers : Nat → Ledger) : Prop :=
  ∀ pid, ∀ q ∈ (ledgers pid).jobs, q.2.context = taskContext

theorem supplied_note {config : EngineConfig} {runID : RunID} {g : Ledger} {c : EngineCall}
    (r : EngineResult c) (hneeds : g.needs config runID c)
    (h : ∀ q ∈ g.jobs, q.2.context = taskContext) :
    ∀ q ∈ (g.note config runID c r).jobs, q.2.context = taskContext := by
  intro q hq
  rcases note_jobs config runID g c r q hq with hq | rfl
  · exact h q hq
  · obtain ⟨s, before, k, t, u, l, -, -, -, -, -, -, -, -, -, -, -, -, -, -, hcontext⟩ :=
      hneeds.2.2.2
    exact hcontext

theorem World.Initial.supplied {w w' : World} {labels : List Label} (h : w.Initial)
    (hrun : w.run labels = some w') : ∃ ledgers, Consistent w' ledgers ∧ Supplied ledgers := by
  refine World.run_induction (P := fun w => ∃ ledgers, Consistent w ledgers ∧ Supplied ledgers) ?_
    ⟨_, h.consistent, nofun⟩ hrun
  rintro w label w' ⟨ledgers, hc, hs⟩ hm
  obtain ⟨ledgers', hc', hf⟩ := hc.step hm
  refine ⟨ledgers', hc', fun pid => ?_⟩
  have hf := hf pid
  generalize ledgers' pid = g at hf ⊢
  cases hf with
  | same => exact hs pid
  | @start config start hl => cases start <;> exact nofun
  | @call choice p p' w'' c next r hl hlive ht ha =>
    have hsafe := hc.safe pid p hlive
    rw [ht] at hsafe
    exact supplied_note r hsafe.1 (hs pid)

/-- The context of a running handler is the caller's: it never descends from that of the
worker, so whatever the scheduler cancels, the handler is not told. -/
theorem handler_context_follows_caller {w w' : World} {labels : List Label} (h : w.Initial)
    (hrun : w.run labels = some w') {pid : Nat} {p : Process} {id : WorkerID} {worker : Worker}
    {claim : WorkerClaim} {job : TaskJob} (hlive : w'.Live pid p)
    (hw : p.workers.get? id = some worker) (hphase : worker.phase = .executing claim job) :
    ¬(workerContext id).Descends (handlerContext job) ∧
      (∀ called, (handlerContext job).done called = called .caller) ∧
      (p.workersCanceled = true ∨ worker.canceled = true → p.canceled = false →
        (workerContext id).done p.called = true ∧ (handlerContext job).done p.called = false) := by
  obtain ⟨ledgers, hc, hs⟩ := h.supplied hrun
  have hjob := ((hc.staffed pid p hlive).sound id worker hw).jobs (claim, job) (by rw [hphase]; rfl)
  have hcontext := hs pid _ hjob
  have hhandler : ∀ called, (handlerContext job).done called = called .caller := by
    intro called
    rw [handlerContext, Context.done, hcontext]
    rfl
  refine ⟨workerContext_not_descends id hcontext, hhandler, fun hstopped hcaller => ⟨?_, ?_⟩⟩
  · rw [workerContext_done hw]
    rcases hstopped with hstopped | hstopped <;> simp [hstopped]
  · rw [hhandler]
    exact hcaller

/-- Whether the context of an executing worker is done, and that of its handler. -/
def World.contexts (w : World) (pid : Nat) (id : WorkerID) : Option (Bool × Bool) :=
  match w.processes.get? pid with
  | none => none
  | some p =>
    match p.workers.get? id with
    | some { phase := .executing _ job, .. } =>
      if p.crashed then none
      else some ((workerContext id).done p.called, (handlerContext job).done p.called)
    | _ => none

theorem World.contexts_some {w : World} {pid : Nat} {id : WorkerID} {contexts : Bool × Bool}
    (h : w.contexts pid id = some contexts) : ∃ p worker claim job, w.Live pid p ∧
      p.workers.get? id = some worker ∧ worker.phase = .executing claim job ∧
      contexts = ((workerContext id).done p.called, (handlerContext job).done p.called) := by
  unfold World.contexts at h
  split at h
  · cases h
  · rename_i p hget
    split at h
    · rename_i claim job canceled claims hw
      split at h
      · cases h
      · rename_i hcrashed
        cases h
        exact ⟨p, _, claim, job, ⟨hget, by simpa using hcrashed⟩, hw, rfl, rfl⟩
    · cases h

def pairConfig : EngineConfig := { sampleConfig with workerCount := 2, workerCount_pos := by decide }

/-- Two handlers run, one of them fails, and the scheduler stops its workers. -/
def failFast : List Label :=
  let first := workerIDFor pairConfig (ascii "r") 1 1
  let second := workerIDFor pairConfig (ascii "r") 2 1
  .launch 0 pairConfig (.execute ⟨ascii "w", [sampleTask (ascii "a"), sampleTask (ascii "b")]⟩) ::
    schedulerSteps 0 [.clock 5, .go, .go, .go, .clock 5, .go, .clocks fun _ => 5, .go, .go, .go, .go,
      .go, .clock 5, .clock 5, .go, .go] ++
    workerSteps 0 first [.start, .receive, .sendClaim] ++
    workerSteps 0 second [.start, .receive, .sendClaim] ++
    schedulerSteps 0 [.take .claim, .clock 5, .go, .go, .go, .go, .clock 5, .clock 5,
      .take .claim, .clock 5, .go, .go, .go, .go, .clock 5, .clock 5] ++
    workerSteps 0 first [.takeAnswer, .finish [] (some ⟨ascii "failed", false⟩), .sendResult] ++
    workerSteps 0 second [.takeAnswer] ++
    schedulerSteps 0 [.take .result, .go, .clock 5, .go, .go, .go]

/-- The workers are canceled and waited for; the handler of the second one is not told. -/
theorem fail_fast_leaves_handler_running : ∃ w' p worker claim job,
    (sampleWorld (ascii "r")).run failFast = some w' ∧ w'.pending 0 = some .waitWorkers ∧
    w'.Live 0 p ∧ p.workers.get? (workerIDFor pairConfig (ascii "r") 2 1) = some worker ∧
    worker.phase = .executing claim job ∧
    (workerContext (workerIDFor pairConfig (ascii "r") 2 1)).done p.called = true ∧
    (handlerContext job).done p.called = false := by
  obtain ⟨w', hrun, hpending, hcontexts⟩ := run_reaches (sampleWorld (ascii "r")) failFast
    (fun w' => w'.pending 0 = some .waitWorkers ∧
      w'.contexts 0 (workerIDFor pairConfig (ascii "r") 2 1) = some (true, false))
    (by decide +kernel)
  obtain ⟨p, worker, claim, job, hlive, hw, hphase, heq⟩ := World.contexts_some hcontexts
  obtain ⟨hworker, hhandler⟩ := Prod.mk.inj heq
  exact ⟨w', p, worker, claim, job, hrun, hpending, hlive, hw, hphase, hworker.symm, hhandler.symm⟩

/-- After a fail-fast the handler that still runs has a context apart from its worker's,
and is told only when the caller cancels too. -/
theorem failFast_context_follows_caller : ∃ w' p worker claim job,
    (sampleWorld (ascii "r")).run failFast = some w' ∧ w'.Live 0 p ∧
    p.workers.get? (workerIDFor pairConfig (ascii "r") 2 1) = some worker ∧
    worker.phase = .executing claim job ∧
    (workerContext (workerIDFor pairConfig (ascii "r") 2 1)).done p.called = true ∧
    ¬(workerContext (workerIDFor pairConfig (ascii "r") 2 1)).Descends (handlerContext job) ∧
    (handlerContext job).done (fun f => f ≠ .caller) = false := by
  obtain ⟨w', hrun, hcontexts⟩ := run_reaches (sampleWorld (ascii "r")) failFast
    (fun w' => w'.contexts 0 (workerIDFor pairConfig (ascii "r") 2 1) = some (true, false))
    (by decide +kernel)
  obtain ⟨p, worker, claim, job, hlive, hw, hphase, heq⟩ := World.contexts_some hcontexts
  obtain ⟨hapart, hfollows, -⟩ :=
    handler_context_follows_caller (sampleWorld_initial _) hrun hlive hw hphase
  exact ⟨w', p, worker, claim, job, hrun, hlive, hw, hphase, (Prod.mk.inj heq).1.symm, hapart,
    (hfollows _).trans (by simp)⟩

end ForgeFlow.Execution
